import FormSchema.Proofs.Json.Printing
import FormSchema.Proofs.Json.Route

/-!
# Where parts stand in a printed value

The text in front of the part that a route leads to, and how the printed value goes on behind it.
Any other text of that part can be put in the same place, and what comes out is a text of the value
with the part changed.  In a laid out value nothing but a comma stands on the line behind a part.
-/

namespace FormSchema.Json

/-! ## Section 1: The text in front of a part -/

/-- What the printed value has in front of the part behind a route. -/
def textBefore (style : Style) : Nat → Route → Json → Text
  | depth, .entry name :: route, .obj es =>
    .scalar '\x7b' :: style.newline (depth + 1) ++
      ((es.takeWhile fun e => e.1 ≠ name).flatMap fun e =>
        entryText style (depth + 1) e ++ style.separator (depth + 1)) ++
      printEntry style name
        (textBefore style (depth + 1) route ((Entries.get? name es).getD .null))
  | depth, .item i :: route, .arr items =>
    .scalar '[' :: style.newline (depth + 1) ++
      ((items.take i).flatMap fun v =>
        printAt style (depth + 1) v ++ style.separator (depth + 1)) ++
      textBefore style (depth + 1) route (items.getD i .null)
  | _, _, _ => []

/-- What stands in front of a part of a part can be told in two pieces. -/
theorem textBefore_append {style : Style} {route : Route} {v w : Json} (h : v.at? route = some w)
    (depth : Nat) (more : Route) :
    textBefore style depth (route ++ more) v =
      textBefore style depth route v ++ textBefore style (depth + route.length) more w := by
  induction route generalizing v depth with
  | nil =>
    cases h
    cases w <;> rfl
  | cons s route ih =>
    obtain ⟨u, hu, hrest⟩ := Option.bind_eq_some_iff.mp h
    have hdepth : depth + (s :: route).length = depth + 1 + route.length := by
      rw [List.length_cons]
      omega
    -- a step into an object or into an array, and the same text in front either way
    rcases child?_eq_some hu with ⟨name, es, rfl, rfl, hget⟩ | ⟨i, items, rfl, rfl, hget⟩
    · rw [List.cons_append, textBefore, textBefore, hget, hdepth, Option.getD_some, ih hrest]
      simp only [printEntry, List.append_assoc]
    · rw [List.cons_append, textBefore, textBefore, List.getD_eq_getElem?_getD, hget, hdepth,
        Option.getD_some, ih hrest]
      simp only [List.append_assoc]

/-! ## Section 2: The text around a part -/

/-- What follows a part between brackets, given the texts of the parts behind it. -/
def Style.behind (style : Style) (depth : Nat) (closing : Char) (texts : List Text) : Text :=
  texts.flatMap (style.separator (depth + 1) ++ ·) ++ (style.newline depth ++ [.scalar closing])

/-- Entries behind a part can be told in two pieces. -/
theorem Style.behind_append (style : Style) (depth : Nat) (closing : Char)
    (texts more : List Text) :
    style.behind depth closing (texts ++ more) =
      texts.flatMap (style.separator (depth + 1) ++ ·) ++ style.behind depth closing more := by
  rw [Style.behind, Style.behind, List.flatMap_append, List.append_assoc]

/-- Parts between brackets, seen from one of them. -/
theorem enclose_append_cons (style : Style) (depth : Nat) (opening closing : Char)
    (before after : List Text) (t : Text) :
    style.enclose depth opening closing (before ++ t :: after) =
      .scalar opening :: style.newline (depth + 1) ++
        before.flatMap (· ++ style.separator (depth + 1)) ++
        (t ++ style.behind depth closing after) := by
  rw [Style.enclose, if_neg (by simp), Text.join_append_cons, Style.behind]
  simp only [List.append_assoc, List.cons_append]

/-- A text that leaves the line that it begins on, if it is not empty, with at most a comma before
that. -/
def LeavesLine (t : Text) : Prop :=
  t = [] ∨ ∃ rest, t = .lineFeed :: rest ∨ t = .scalar ',' :: .lineFeed :: rest

/-- A text leaves the line if one of its parts does. -/
theorem LeavesLine.append {s t : Text} (hs : LeavesLine s) (ht : LeavesLine t) :
    LeavesLine (s ++ t) := by
  rcases hs with rfl | ⟨rest, rfl | rfl⟩
  · exact ht
  · exact .inr ⟨rest ++ t, .inl rfl⟩
  · exact .inr ⟨rest ++ t, .inr rfl⟩

/-- Behind a part that is laid out, the rest of the text begins on the next line. -/
theorem leavesLine_behind {style : Style} {n : Nat} (hindent : style.indent = some n) (depth : Nat)
    (closing : Char) (texts : List Text) : LeavesLine (style.behind depth closing texts) := by
  rw [Style.behind, Style.separator, Style.newline, Style.newline, hindent]
  cases texts with
  | nil => exact .inr ⟨_, .inl rfl⟩
  | cons t texts => exact .inr ⟨_, .inr rfl⟩

/-- The surroundings of a part in a printed value: the text behind it, and that any text of a
changed part between the two gives a text of the changed value. -/
structure Surrounds (style : Style) (depth : Nat) (route : Route) (v w : Json) (after : Text) :
    Prop where
  print : printAt style depth v =
    textBefore style depth route v ++ (printAt style (depth + route.length) w ++ after)
  leaves : LeavesLine after
  derives : ∀ (f : Json → Json) {t : Text}, Derives (.value (f w)) t →
    Derives (.value (v.modifyAt f route)) (textBefore style depth route v ++ (t ++ after))

section Surroundings

variable {style : Style} {n : Nat} (hindent : style.indent = some n)
  (hascii : style.ascii = false) (hgap : IsBlank style.gap)
include hindent hascii hgap

/-- Around a part of an entry there is the entry, and around this the other entries. -/
private theorem surrounds_entry {es : Entries Json} {name : Text} {u w : Json} {route : Route}
    {depth : Nat}
    {inside : Text} (hd : es.Distinct) (hexact : ∀ e ∈ es, e.2.Every IsExact)
    (hget : Entries.get? name es = some u) (h : Surrounds style (depth + 1) route u w inside) :
    ∃ after, Surrounds style depth (.entry name :: route) (.obj es) w after := by
  obtain ⟨rest, hes, hmap⟩ := modify_entries hd hget
  -- the printed object, with any text for the value of the entry
  have htext (x : Text) :
      style.enclose depth '\x7b' '\x7d'
        ((es.takeWhile fun e => e.1 ≠ name).map (entryText style (depth + 1)) ++
          printEntry style name (textBefore style (depth + 1) route u ++ (x ++ inside)) ::
            rest.map (entryText style (depth + 1))) =
      textBefore style depth (.entry name :: route) (.obj es) ++
        (x ++ (inside ++ style.behind depth '\x7d' (rest.map (entryText style (depth + 1))))) := by
    rw [enclose_append_cons, textBefore, hget, Option.getD_some, List.flatMap_map,
      printEntry_append]
    simp only [List.append_assoc]
  refine ⟨inside ++ style.behind depth '\x7d' (rest.map (entryText style (depth + 1))), ?_,
    h.leaves.append (leavesLine_behind hindent depth _ _), ?_⟩
  · rw [List.length_cons, Nat.add_comm route.length, ← Nat.add_assoc, ← htext, ← h.print, printAt,
      printEntries_eq_map]
    conv_lhs => rw [hes, List.map_append, List.map_cons, entryText]
  · intro f t ht
    rw [hes, List.forall_mem_append, List.forall_mem_cons] at hexact
    have hbefore := derives_entryTexts hgap hascii hexact.1 (depth + 1)
    have hafter := derives_entryTexts hgap hascii hexact.2.2 (depth + 1)
    have hmember := derives_printEntry hgap hascii name (h.derives f ht)
    -- the texts of the neighbours are derived as before, and the entry from the changed text
    rw [← htext, modifyAt, modifyChild, hmap]
    exact derives_enclose_object hgap depth (List.rel_append hbefore (.cons hmember hafter))

/-- Around a part of an item there is the item, and around this the other items. -/
private theorem surrounds_item {items : List Json} {i : Nat} {u w : Json} {route : Route}
    {depth : Nat}
    {inside : Text} (hexact : ∀ v ∈ items, v.Every IsExact) (hget : items[i]? = some u)
    (h : Surrounds style (depth + 1) route u w inside) :
    ∃ after, Surrounds style depth (.item i :: route) (.arr items) w after := by
  obtain ⟨hitems, _⟩ := modify_items hget id
  -- the printed array, with any text for the item
  have htext (x : Text) :
      style.enclose depth '[' ']'
        ((items.take i).map (printAt style (depth + 1)) ++
          (textBefore style (depth + 1) route u ++ (x ++ inside)) ::
            (items.drop (i + 1)).map (printAt style (depth + 1))) =
      textBefore style depth (.item i :: route) (.arr items) ++
        (x ++ (inside ++
          style.behind depth ']' ((items.drop (i + 1)).map (printAt style (depth + 1))))) := by
    rw [enclose_append_cons, textBefore, List.getD_eq_getElem?_getD, hget, Option.getD_some,
      List.flatMap_map]
    simp only [List.append_assoc]
  refine ⟨inside ++ style.behind depth ']' ((items.drop (i + 1)).map (printAt style (depth + 1))),
    ?_, h.leaves.append (leavesLine_behind hindent depth _ _), ?_⟩
  · rw [List.length_cons, Nat.add_comm route.length, ← Nat.add_assoc, ← htext, ← h.print, printAt,
      printItems_eq_map]
    conv_lhs => rw [hitems, List.map_append, List.map_cons]
  · intro f t ht
    rw [hitems, List.forall_mem_append, List.forall_mem_cons] at hexact
    have hbefore := derives_itemTexts hgap hascii hexact.1 (depth + 1)
    have hafter := derives_itemTexts hgap hascii hexact.2.2 (depth + 1)
    rw [← htext, modifyAt, modifyChild, (modify_items hget (modifyAt f route)).2]
    exact derives_enclose_array hgap depth
      (List.rel_append hbefore (.cons (h.derives f ht) hafter))

/-- Every part of a laid out value has surroundings. -/
theorem exists_surrounds {v w : Json} {route : Route} (hd : v.Every HasDistinctNames)
    (hexact : v.Every IsExact) (h : v.at? route = some w) (depth : Nat) :
    ∃ after, Surrounds style depth route v w after := by
  -- on the route, from the root down: each step puts its brackets around the surroundings below
  induction route generalizing v depth with
  | nil =>
    cases h
    refine ⟨[], ?_, .inl rfl, ?_⟩
    · cases w <;> exact (List.append_nil _).symm
    · intro f t ht
      rw [List.append_nil]
      cases w <;> exact ht
  | cons s route ih =>
    obtain ⟨u, hu, hrest⟩ := Option.bind_eq_some_iff.mp h
    obtain ⟨inside, hinside⟩ := ih (hd.child hu) (hexact.child hu) hrest (depth + 1)
    rcases child?_eq_some hu with ⟨name, es, rfl, rfl, hget⟩ | ⟨i, items, rfl, rfl, hget⟩
    · exact surrounds_entry hindent hascii hgap hd.self (every_obj.mp hexact).2 hget hinside
    · exact surrounds_item hindent hascii hgap (every_arr.mp hexact).2 hget hinside

end Surroundings

end FormSchema.Json
