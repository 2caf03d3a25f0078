import FormSchema.Proofs.Json.Soundness
import Mathlib.Algebra.GroupWithZero.Nat
import Mathlib.Algebra.Order.BigOperators.Group.List
import Mathlib.Algebra.Order.Group.Nat

/-!
# A text is no shorter than its value is large

Every value inside a parsed value has been written by a code point of its own at least, so a text
has no fewer code points than its value has parts.
-/

namespace FormSchema

/-! ## Section 1: Repeated names -/

namespace Entries

variable {α : Type}

/-- What some function of the values adds up to over the entries. -/
def total (f : α → Nat) (es : Entries α) : Nat := (es.map fun e => f e.2).sum

@[simp] theorem total_nil (f : α → Nat) : total f [] = 0 := rfl

@[simp] theorem total_cons (f : α → Nat) (e : Text × α) (es : Entries α) :
    total f (e :: es) = f e.2 + total f es := List.sum_cons

private theorem total_put_le (f : α → Nat) (name : Text) (value : α) (es : Entries α) :
    total f (put name value es) ≤ total f es + f value := by
  induction es with
  | nil => simp [put]
  | cons e rest ih =>
    obtain ⟨k, v⟩ := e
    rw [put]
    split <;> simp only [total_cons] <;> omega

/-- Of a repeated name only the last value counts. -/
theorem total_ofMembers_le (f : α → Nat) (ms : Entries α) : total f (ofMembers ms) ≤ total f ms := by
  -- the members are put one by one into what is done already
  suffices hfold : ∀ done : Entries α, total f (ms.foldl (fun es m => put m.1 m.2 es) done) ≤
      total f done + total f ms from (hfold []).trans_eq (Nat.zero_add _)
  induction ms with
  | nil => exact fun done => Nat.le_refl _
  | cons m ms ih =>
    intro done
    have hrest := ih (put m.1 m.2 done)
    have hput := total_put_le f m.1 m.2 done
    rw [List.foldl_cons, total_cons]
    omega

end Entries

namespace Json

/-! ## Section 2: Parts -/

/-- How many values a value consists of, itself included. -/
def size (v : Json) : Nat := v.parts.length

private theorem size_arr (items : List Json) : (arr items).size = (items.map size).sum + 1 := by
  rw [size, parts, partsOfItems_eq_flatMap, List.length_cons, List.length_flatMap]
  rfl

/-- An object has one node more than its values. -/
theorem size_obj (es : Entries Json) : (obj es).size = es.total size + 1 := by
  rw [size, parts, partsOfEntries_eq_flatMap, List.length_cons, List.length_flatMap]
  rfl

private theorem size_merge_le (v : Json) : v.merge.size ≤ v.size := by
  induction v using inductionOn with
  | null | bool _ | int _ | float _ | str _ => exact Nat.le_refl _
  | arr items ih =>
    rw [merge_arr, size_arr, size_arr, List.map_map]
    exact Nat.add_le_add_right (List.sum_le_sum ih) 1
  | obj es ih =>
    rw [merge_obj, size_obj, size_obj]
    -- merging drops entries, and those that stay are merged themselves
    have hmembers : (Entries.total size (es.map fun e => (e.1, e.2.merge))) ≤ es.total size := by
      rw [Entries.total, List.map_map]
      exact List.sum_le_sum ih
    exact Nat.add_le_add_right ((Entries.total_ofMembers_le _ _).trans hmembers) 1

/-! ## Section 3: Texts -/

/-- How many values stand in a phrase. -/
def Phrase.size : Phrase → Nat
  | .value v => v.size
  | .element v => v.size
  | .elements vs => (vs.map Json.size).sum
  | .member m => m.2.size
  | .members ms => Entries.total Json.size ms

private theorem WritesNumeral.length_pos {n : Numeral} {s : Text} (h : WritesNumeral n s) :
    0 < s.length := by
  obtain ⟨d, tail, -, rfl | rfl⟩ := h.eq_cons
  · exact Nat.succ_pos _
  · exact Nat.succ_pos _

private theorem Numeral.size_meaning (n : Numeral) : n.meaning.size = 1 := by
  unfold Numeral.meaning
  split <;> rfl

private theorem Derives.size_le {p : Phrase} {s : Text} (h : Derives p s) : p.size ≤ s.length := by
  -- every rule that adds a node adds a code point
  induction h with
  | null | boolTrue | boolFalse => decide
  | number h => exact (Numeral.size_meaning _).trans_le h.length_pos
  | string h => exact Nat.succ_le_succ (Nat.zero_le _)
  | emptyArray hw => exact Nat.succ_le_succ (Nat.zero_le _)
  | emptyObject hw => exact Nat.succ_le_succ (Nat.zero_le _)
  | array h ih =>
    simp only [Phrase.size, size_arr, List.length_cons, List.length_append] at ih ⊢
    omega
  | object h ih =>
    simp only [Phrase.size, size_obj, List.length_cons, List.length_append] at ih ⊢
    omega
  | element hl h hr ih =>
    simp only [Phrase.size, List.length_append] at ih ⊢
    omega
  | lastElement h ih =>
    simp only [Phrase.size, List.map_cons, List.map_nil, List.sum_cons, List.sum_nil] at ih ⊢
    omega
  | moreElements h hs ih ihs =>
    simp only [Phrase.size, List.map_cons, List.sum_cons, List.length_append, List.length_cons]
      at ih ihs ⊢
    omega
  | member hl hn hr h ih =>
    simp only [Phrase.size, List.length_append, List.length_cons] at ih ⊢
    omega
  | lastMember h ih =>
    simp only [Phrase.size, Entries.total_cons, Entries.total_nil] at ih ⊢
    omega
  | moreMembers h hs ih ihs =>
    simp only [Phrase.size, Entries.total_cons, List.length_append, List.length_cons] at ih ihs ⊢
    omega

/-- A text has no fewer code points than there are values in what it is parsed as. -/
theorem size_le_of_parse {text : Text} {v : Json} (h : parse text = .ok v) :
    v.size ≤ text.length := by
  obtain ⟨tree, htree, -, rfl⟩ := parse_eq_ok_iff.mp h
  exact (size_merge_le tree).trans htree.size_le

end Json

end FormSchema
