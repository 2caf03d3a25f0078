import FormSchema.Proofs.Rule
import FormSchema.Proofs.Text.Order
import FormSchema.RuleRegistry
import Mathlib.Data.List.Sort

/-!
# Sound registries

A registry passes its check exactly if each of the three buckets is strictly increasing and holds
well formed identifiers only, no identifier stands in two of them, and the list of all identifiers
is their merge.  Any other registry is refused, with a violation that it has.
-/

namespace FormSchema.RuleRegistry

/-! ## Section 1: Soundness -/

/-- The buckets that rules are put in by their stability. -/
def buckets (r : RuleRegistry) : List (List Text) := [r.stable, r.experimental, r.deprecated]

/-- The identifiers of the three buckets, merged in the order of texts. -/
def merged (r : RuleRegistry) : List Text :=
  (r.stable.merge r.experimental Text.le).merge r.deprecated Text.le

/-- A registry of well formed identifiers, each of which stands once in one bucket, and in its place
in the list of all identifiers. -/
structure IsSound (r : RuleRegistry) : Prop where
  increasing : ∀ ids ∈ r.buckets, ids.Pairwise (· < ·)
  wellFormed : ∀ ids ∈ r.buckets, ∀ t ∈ ids, RuleId.Matches t
  disjoint : r.buckets.Pairwise List.Disjoint
  all_eq : r.all = r.merged

/-- The lists of a registry by their names. -/
def ids (r : RuleRegistry) : Bucket → List Text
  | .stable => r.stable
  | .experimental => r.experimental
  | .deprecated => r.deprecated
  | .all => r.all

/-- What a violation says about a registry. -/
def Violation.Describes (r : RuleRegistry) : Violation → Prop
  | unsorted b => ¬ (r.ids b).Pairwise (· ≤ ·)
  | repeated b => ¬ (r.ids b).Nodup
  | malformed b bad =>
    bad ≠ [] ∧ bad.Sublist (r.ids b) ∧ ∀ t, t ∈ bad ↔ t ∈ r.ids b ∧ ¬ RuleId.Matches t
  | overlapping ts =>
    ts ≠ [] ∧ ts.Pairwise (· < ·) ∧ ∀ t, t ∈ ts ↔ 2 ≤ r.buckets.countP (t ∈ ·)
  | notUnion => ∃ t, ¬ (t ∈ r.all ↔ ∃ ids ∈ r.buckets, t ∈ ids)

section

variable {r : RuleRegistry} {t : Text}

private theorem forall_mem_buckets {p : List Text → Prop} :
    (∀ ids ∈ r.buckets, p ids) ↔ p r.stable ∧ p r.experimental ∧ p r.deprecated := by
  simp [buckets]

private theorem exists_mem_buckets :
    (∃ ids ∈ r.buckets, t ∈ ids) ↔ t ∈ r.stable ∨ t ∈ r.experimental ∨ t ∈ r.deprecated := by
  simp [buckets]

private theorem disjoint_buckets_iff :
    r.buckets.Pairwise List.Disjoint ↔ r.stable.Disjoint r.experimental ∧
      r.stable.Disjoint r.deprecated ∧ r.experimental.Disjoint r.deprecated := by
  simp [buckets, and_assoc]

private theorem mem_merged : t ∈ r.merged ↔ ∃ ids ∈ r.buckets, t ∈ ids := by
  rw [merged, List.mem_merge, List.mem_merge, exists_mem_buckets, or_assoc]

/-- Buckets that are increasing and have nothing in common are merged into one increasing list. -/
private theorem merged_increasing (hi : ∀ ids ∈ r.buckets, ids.Pairwise (· < ·))
    (hd : r.buckets.Pairwise List.Disjoint) : r.merged.Pairwise (· < ·) := by
  obtain ⟨hstable, hexperimental, hdeprecated⟩ := forall_mem_buckets.mp hi
  obtain ⟨hse, hsd, hed⟩ := disjoint_buckets_iff.mp hd
  apply Text.merge_increasing (Text.merge_increasing hstable hexperimental hse) hdeprecated
  rw [List.disjoint_left]
  intro t ht
  rcases List.mem_merge.mp ht with ht | ht
  · exact List.disjoint_left.mp hsd ht
  · exact List.disjoint_left.mp hed ht

/-- The list of all identifiers is the merge of the buckets exactly if it has their members and is,
like them, strictly increasing with well formed members only. -/
theorem isSound_iff :
    r.IsSound ↔ (∀ b, (r.ids b).Pairwise (· < ·) ∧ ∀ t ∈ r.ids b, RuleId.Matches t) ∧
      r.buckets.Pairwise List.Disjoint ∧ ∀ t, t ∈ r.all ↔ ∃ ids ∈ r.buckets, t ∈ ids := by
  constructor
  · rintro ⟨hincreasing, hmatches, hdisjoint, hall⟩
    obtain ⟨hi₁, hi₂, hi₃⟩ := forall_mem_buckets.mp hincreasing
    obtain ⟨hm₁, hm₂, hm₃⟩ := forall_mem_buckets.mp hmatches
    refine ⟨?_, hdisjoint, fun t => hall ▸ mem_merged⟩
    intro b
    cases b with
    | stable => exact ⟨hi₁, hm₁⟩
    | experimental => exact ⟨hi₂, hm₂⟩
    | deprecated => exact ⟨hi₃, hm₃⟩
    | all =>
      -- the union of the three lists is sound because they are
      rw [ids, hall]
      refine ⟨merged_increasing hincreasing hdisjoint, fun t ht => ?_⟩
      obtain ⟨ids, hids, ht⟩ := mem_merged.mp ht
      exact hmatches ids hids t ht
  · rintro ⟨hlists, hdisjoint, hunion⟩
    have hincreasing : ∀ ids ∈ r.buckets, ids.Pairwise (· < ·) :=
      forall_mem_buckets.mpr
        ⟨(hlists .stable).1, (hlists .experimental).1, (hlists .deprecated).1⟩
    refine ⟨hincreasing, ?_, hdisjoint, ?_⟩
    · exact forall_mem_buckets.mpr
        ⟨(hlists .stable).2, (hlists .experimental).2, (hlists .deprecated).2⟩
    · -- there is only one strictly increasing list of these members
      refine (hlists .all).1.eq_of_mem_iff (merged_increasing hincreasing hdisjoint) fun t => ?_
      exact (hunion t).trans mem_merged.symm

/-! ## Section 2: The lists together -/

private theorem mem_overlaps :
    t ∈ r.overlaps ↔ t ∈ r.stable ∧ t ∈ r.experimental ∨ t ∈ r.stable ∧ t ∈ r.deprecated ∨
      t ∈ r.experimental ∧ t ∈ r.deprecated := by
  simp only [overlaps, shared, Text.mem_sort, List.mem_eraseDups, List.mem_append, List.mem_filter,
    List.contains_iff_mem, or_assoc]

private theorem mem_overlaps_iff_countP : t ∈ r.overlaps ↔ 2 ≤ r.buckets.countP (t ∈ ·) := by
  rw [mem_overlaps, buckets]
  by_cases hs : t ∈ r.stable <;> by_cases he : t ∈ r.experimental <;>
    by_cases hd : t ∈ r.deprecated <;> simp [hs, he, hd]

private theorem overlaps_eq_nil_iff : r.overlaps = [] ↔ r.buckets.Pairwise List.Disjoint := by
  simp only [disjoint_buckets_iff, List.disjoint_left, List.eq_nil_iff_forall_not_mem,
    mem_overlaps, not_or, not_and, forall_and]

private theorem isUnion_iff : r.isUnion = true ↔ ∀ t, t ∈ r.all ↔ ∃ ids ∈ r.buckets, t ∈ ids := by
  simp only [isUnion, Bool.and_eq_true, List.all_eq_true, List.contains_iff_mem, List.mem_append,
    exists_mem_buckets, or_assoc]
  exact ⟨fun h t => ⟨h.1 t, h.2 t⟩, fun h => ⟨fun t => (h t).mp, fun t => (h t).mpr⟩⟩

/-- No violation describes a sound registry. -/
theorem Violation.Describes.not_isSound {v : Violation} (hv : v.Describes r) : ¬ r.IsSound := by
  intro h
  obtain ⟨hlists, hdisjoint, hunion⟩ := isSound_iff.mp h
  -- each violation contradicts one part of soundness
  cases v with
  | unsorted b => exact hv ((hlists b).1.imp List.le_of_lt)
  | repeated b => exact hv (hlists b).1.nodup
  | malformed b bad =>
    obtain ⟨hne, -, hbad⟩ := hv
    obtain ⟨t, ht⟩ := List.exists_mem_of_ne_nil bad hne
    obtain ⟨hmem, hmatches⟩ := (hbad t).mp ht
    exact hmatches ((hlists b).2 t hmem)
  | overlapping ts =>
    obtain ⟨hne, -, hts⟩ := hv
    obtain ⟨t, ht⟩ := List.exists_mem_of_ne_nil ts hne
    have hoverlaps : t ∈ r.overlaps := mem_overlaps_iff_countP.mpr ((hts t).mp ht)
    rw [overlaps_eq_nil_iff.mpr hdisjoint] at hoverlaps
    cases hoverlaps
  | notUnion =>
    obtain ⟨t, ht⟩ := hv
    exact ht (hunion t)

/-! ## Section 3: The check -/

/-- A part of the check passes where a property holds, and otherwise finds a violation that the
registry has. -/
def Judges (r : RuleRegistry) (outcome : Except Violation Unit) (p : Prop) : Prop :=
  outcome = .ok () ∧ p ∨ ∃ v, outcome = .error v ∧ v.Describes r

private theorem Judges.andThen {first second : Except Violation Unit} {p q : Prop}
    (hfirst : r.Judges first p) (hsecond : r.Judges second q) :
    r.Judges (do first; second) (p ∧ q) := by
  rcases hfirst with ⟨rfl, hp⟩ | ⟨v, rfl, hv⟩
  · rcases hsecond with ⟨rfl, hq⟩ | ⟨v, rfl, hv⟩
    · exact .inl ⟨rfl, hp, hq⟩
    · exact .inr ⟨v, rfl, hv⟩
  · exact .inr ⟨v, rfl, hv⟩

private theorem judges_checkBucket (r : RuleRegistry) (b : Bucket) :
    r.Judges (checkBucket b (r.ids b))
      ((r.ids b).Pairwise (· < ·) ∧ ∀ t ∈ r.ids b, RuleId.Matches t) := by
  rw [checkBucket]
  split
  · next hsorted =>
    refine .inr ⟨_, rfl, fun h => hsorted (Text.eq_sort_iff.mpr ?_)⟩
    exact h.imp Text.le_iff.mpr
  · next hsorted =>
    split
    · next hunique => exact .inr ⟨_, rfl, fun h => hunique (length_eraseDups_eq_iff.mpr h)⟩
    · next hunique =>
      rw [not_not] at hsorted hunique
      have hbad {t : Text} : t ∈ (r.ids b).filter (fun t => !RuleId.isValid t) ↔
          t ∈ r.ids b ∧ ¬ RuleId.Matches t := by
        rw [List.mem_filter, Bool.not_eq_true', ← RuleId.isValid_iff, Bool.not_eq_true]
      dsimp only
      split
      · next hnone =>
        -- no bad identifier has been found, so each of them matches
        have hnodup := length_eraseDups_eq_iff.mp hunique
        refine .inl ⟨rfl, Text.increasing_iff.mpr ⟨hsorted, hnodup⟩, fun t ht => ?_⟩
        by_contra hmatches
        have hmem := hbad.mpr ⟨ht, hmatches⟩
        rw [List.isEmpty_iff.mp hnone] at hmem
        cases hmem
      · next hsome =>
        exact .inr ⟨_, rfl, mt List.isEmpty_iff.mpr hsome, List.filter_sublist, fun _ => hbad⟩

/-- The tests of all buckets judge whether they are apart and together are the whole. -/
private theorem judges_together (r : RuleRegistry) :
    r.Judges (if !r.overlaps.isEmpty then .error (.overlapping r.overlaps)
        else if !r.isUnion then .error .notUnion else .ok ())
      (r.buckets.Pairwise List.Disjoint ∧ ∀ t, t ∈ r.all ↔ ∃ ids ∈ r.buckets, t ∈ ids) := by
  rw [← overlaps_eq_nil_iff, ← isUnion_iff]
  -- overlaps are reported before the union is looked at
  split
  · next h =>
    rw [Bool.not_eq_true', ← Bool.not_eq_true, List.isEmpty_iff] at h
    refine .inr ⟨_, rfl, h, Text.sort_strictly_increasing (nodup_eraseDups _), ?_⟩
    exact fun _ => mem_overlaps_iff_countP
  · next h =>
    rw [Bool.not_eq_true', Bool.not_eq_false, List.isEmpty_iff] at h
    split
    · next hunion =>
      rw [Bool.not_eq_true', ← Bool.not_eq_true, isUnion_iff, not_forall] at hunion
      exact .inr ⟨_, rfl, hunion⟩
    · next hunion =>
      rw [Bool.not_eq_true', Bool.not_eq_false] at hunion
      exact .inl ⟨rfl, h, hunion⟩

private theorem judges_check (r : RuleRegistry) : r.Judges r.check r.IsSound := by
  -- the list of all identifiers is checked like a bucket before it is compared with the others
  have hchecks := (judges_checkBucket r .stable).andThen <|
    (judges_checkBucket r .experimental).andThen <|
      (judges_checkBucket r .deprecated).andThen <|
        (judges_checkBucket r .all).andThen (judges_together r)
  rcases hchecks with ⟨hok, hstable, hexperimental, hdeprecated, hall, htogether⟩ | herror
  · refine .inl ⟨hok, isSound_iff.mpr ⟨fun b => ?_, htogether⟩⟩
    cases b with
    | stable => exact hstable
    | experimental => exact hexperimental
    | deprecated => exact hdeprecated
    | all => exact hall
  · exact .inr herror

/-- The check of a registry passes exactly if the registry is sound; otherwise it fails, and with a
violation that describes the registry. -/
theorem check_passes_iff_sound (r : RuleRegistry) :
    (r.check = .ok () ↔ r.IsSound) ∧
      ((∃ v, r.check = .error v ∧ v.Describes r) ↔ ¬ r.IsSound) := by
  rcases judges_check r with ⟨hok, hsound⟩ | ⟨v, herror, hv⟩
  · refine ⟨iff_of_true hok hsound, iff_of_false ?_ (not_not.mpr hsound)⟩
    rintro ⟨v, -, hv⟩
    exact hv.not_isSound hsound
  · refine ⟨iff_of_false ?_ hv.not_isSound, iff_of_true ⟨v, herror, hv⟩ hv.not_isSound⟩
    rw [herror]
    nofun

end

/-! ## Section 4: The registry of this library -/

private theorem current_isSound : current.IsSound := by
  have hnodup : (Rule.all.map (·.id)).Nodup := by decide
  refine ⟨?_, ?_, ?_, ?_⟩
  · exact forall_mem_buckets.mpr ⟨Text.sort_strictly_increasing hnodup, .nil, .nil⟩
  · refine forall_mem_buckets.mpr ⟨fun t ht => ?_, nofun, nofun⟩
    obtain ⟨rule, -, rfl⟩ := List.mem_map.mp (Text.mem_sort.mp ht)
    exact RuleId.matches_id rule
  · simp [disjoint_buckets_iff, current]
  · -- the other buckets are empty, and so the merge is the first bucket
    simp [merged, current]

/-- The check of the registry of this library finds no violation. -/
theorem check_current : current.check = .ok () := by
  rcases judges_check current with ⟨hok, -⟩ | ⟨v, -, hv⟩
  · exact hok
  · exact absurd current_isSound hv.not_isSound

end FormSchema.RuleRegistry
