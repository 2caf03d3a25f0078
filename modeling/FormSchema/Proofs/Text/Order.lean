import FormSchema.Text.CodePoint
import Mathlib.Data.List.Nodup
import Mathlib.Data.List.Perm.Subperm

/-!
# The order of texts is linear

Code points are ordered by number, and texts like words over them.  Sorting therefore gives, of a
list without repetitions, its one strictly increasing enumeration.
-/

namespace FormSchema

/-! ## Section 1: Code points -/

instance : Std.Irrefl (α := CodePoint) (· < ·) := ⟨fun a => Nat.lt_irrefl a.toNat⟩

instance : Std.Asymm (α := CodePoint) (· < ·) := ⟨fun _ _ h => Nat.lt_asymm h⟩

instance : Std.Trichotomous (α := CodePoint) (· < ·) := by
  refine ⟨fun a b hab hba => ?_⟩
  exact CodePoint.toNat_injective (Nat.le_antisymm (Nat.not_lt.mp hba) (Nat.not_lt.mp hab))

instance : Trans (α := CodePoint) (¬ · < ·) (¬ · < ·) (¬ · < ·) := by
  refine ⟨fun hab hbc => ?_⟩
  exact Nat.not_lt.mpr (Nat.le_trans (Nat.not_lt.mp hbc) (Nat.not_lt.mp hab))

namespace Text

/-! ## Section 2: Texts -/

/-- The order by code points is the lexicographic one. -/
theorem le_iff {a b : Text} : le a b = true ↔ a ≤ b := decide_eq_true_iff

/-- The order of texts is transitive. -/
theorem le_trans (a b c : Text) (hab : le a b) (hbc : le b c) : le a c := by
  let : LE CodePoint := .ofLT CodePoint
  have : Std.IsLinearOrder CodePoint := .of_lt
  exact le_iff.mpr (List.le_trans (le_iff.mp hab) (le_iff.mp hbc))

/-- Any two texts can be compared. -/
theorem le_total (a b : Text) : (le a b || le b a) = true := by
  rw [Bool.or_eq_true, le_iff, le_iff]
  exact List.le_total a b

/-- Different texts are in one order only. -/
theorem lt_of_le_of_ne {a b : Text} (hle : le a b) (hne : a ≠ b) : a < b :=
  (List.le_iff_lt_or_eq.mp (le_iff.mp hle)).resolve_right hne

/-! ## Section 3: Sorting -/

/-- Sorting loses no text and adds none. -/
theorem mem_sort {t : Text} {ts : List Text} : t ∈ sort ts ↔ t ∈ ts := List.mem_mergeSort

/-- Sorting does not change how many texts there are. -/
theorem length_sort (ts : List Text) : (sort ts).length = ts.length := List.length_mergeSort ts

/-- Texts without repetitions come out of sorting strictly increasing. -/
theorem sort_strictly_increasing {ts : List Text} (hd : ts.Nodup) :
    (sort ts).Pairwise (· < ·) := by
  have hsorted : (sort ts).Pairwise fun a b => le a b :=
    List.pairwise_mergeSort le_trans le_total ts
  have hnodup : (sort ts).Nodup := (List.mergeSort_perm ts le).nodup_iff.mpr hd
  exact (hsorted.and hnodup).imp fun h => lt_of_le_of_ne h.1 h.2

/-- Sorting does not see in which order texts without repetitions stand. -/
theorem sort_eq_of_perm {ts us : List Text} (h : ts.Perm us) (hd : ts.Nodup) :
    sort ts = sort us := by
  have hperm : (sort ts).Perm (sort us) :=
    ((List.mergeSort_perm ts le).trans h).trans (List.mergeSort_perm us le).symm
  exact hperm.eq_of_pairwise (fun a b _ _ hab hba => absurd hba (List.lt_asymm hab))
    (sort_strictly_increasing hd) (sort_strictly_increasing (h.nodup_iff.mp hd))

/-- Texts that are in order are sorted already, and no others are. -/
theorem eq_sort_iff {ts : List Text} : ts = sort ts ↔ ts.Pairwise fun a b => le a b := by
  constructor
  · intro h
    rw [h]
    exact List.pairwise_mergeSort le_trans le_total ts
  · intro h
    exact (List.mergeSort_of_pairwise h).symm

/-- A list is strictly increasing if it is sorted and has no repetitions. -/
theorem increasing_iff {ts : List Text} : ts.Pairwise (· < ·) ↔ ts = sort ts ∧ ts.Nodup := by
  rw [eq_sort_iff]
  constructor
  · intro h
    exact ⟨h.imp fun hlt => le_iff.mpr (List.le_of_lt hlt), h.nodup⟩
  · rintro ⟨hsorted, hnodup⟩
    exact (hsorted.and hnodup).imp fun h => lt_of_le_of_ne h.1 h.2

/-- The merge of strictly increasing lists without a common member is strictly increasing. -/
theorem merge_increasing {ts us : List Text} (ht : ts.Pairwise (· < ·)) (hu : us.Pairwise (· < ·))
    (hd : ts.Disjoint us) : (ts.merge us le).Pairwise (· < ·) := by
  obtain ⟨hts, hnt⟩ := increasing_iff.mp ht
  obtain ⟨hus, hnu⟩ := increasing_iff.mp hu
  rw [increasing_iff, eq_sort_iff]
  constructor
  · exact List.pairwise_merge le_trans le_total ts us (eq_sort_iff.mp hts) (eq_sort_iff.mp hus)
  · exact (List.merge_perm_append le).nodup_iff.mpr (hnt.append hnu hd)

end Text

/-! ## Section 4: Later copies -/

/-- Nothing is left twice. -/
theorem nodup_eraseDups {α : Type} [BEq α] [LawfulBEq α] (xs : List α) : xs.eraseDups.Nodup := by
  match xs with
  | [] => exact List.nodup_nil
  | x :: xs =>
    rw [List.eraseDups_cons, List.nodup_cons, List.mem_eraseDups, List.mem_filter]
    exact ⟨by simp, nodup_eraseDups _⟩
termination_by xs.length
decreasing_by exact Nat.lt_succ_of_le (List.length_filter_le _ xs)

/-- What is left is left in its order. -/
theorem eraseDups_sublist {α : Type} [BEq α] [LawfulBEq α] (xs : List α) :
    xs.eraseDups.Sublist xs := by
  match xs with
  | [] => exact List.Sublist.refl []
  | x :: xs =>
    rw [List.eraseDups_cons]
    exact ((eraseDups_sublist _).trans List.filter_sublist).cons_cons x
termination_by xs.length
decreasing_by exact Nat.lt_succ_of_le (List.length_filter_le _ xs)

/-- A list is as long without the later copies of its members exactly if there are none. -/
theorem length_eraseDups_eq_iff {α : Type} [BEq α] [LawfulBEq α] {xs : List α} :
    xs.eraseDups.length = xs.length ↔ xs.Nodup := by
  constructor
  · intro h
    rw [← (eraseDups_sublist xs).eq_of_length h]
    exact nodup_eraseDups xs
  · intro h
    -- the members are among those that are left
    refine Nat.le_antisymm (eraseDups_sublist xs).length_le ?_
    exact (h.subperm fun _ hx => List.mem_eraseDups.mpr hx).length_le

end FormSchema
