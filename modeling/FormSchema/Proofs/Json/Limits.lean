import FormSchema.Json.Display
import FormSchema.Json.Printer
import FormSchema.Proofs.Json.Grammar

/-!
# What can be written

A writer that goes through a value with so many calls left meets a fault exactly if the value is
nested more deeply than that, or has an integer of too many digits.  A value that is converted first
may be nested half as deeply, so that whatever has a canonical text is within the limits of the
reader; a document that was read need not have one.
-/

namespace FormSchema.Json

/-! ## Section 1: Going through a value -/

variable {deep : WriteFault} {calls : Nat} {v : Json}

/-- Only integers can have too many digits. -/
theorem fitsDigits_int {n : Int} : (int n).FitsDigits ↔ fitsDigits n = true := by
  rw [FitsDigits, fitsDigits, decide_eq_true_iff, Nat.pow_eq]

section FirstFault

variable {α β : Type} {first : List α → Option β} {fault? : α → Option β} {items : List α}
  (hnil : first [] = none) (hcons : ∀ a rest, first (a :: rest) = (fault? a).or (first rest))
include hnil hcons

/-- Where the first fault in a list is looked for item by item, it is that of the first item that has
one. -/
theorem firstFault_eq_findSome? : first items = items.findSome? fault? := by
  induction items with
  | nil => exact hnil
  | cons a rest ih =>
    rw [hcons, ih, List.findSome?_cons]
    cases fault? a with
    | none => rfl
    | some f => rfl

/-- There is no first fault exactly if no item has one. -/
theorem firstFault_eq_none_iff : first items = none ↔ ∀ a ∈ items, fault? a = none := by
  rw [firstFault_eq_findSome? hnil hcons, List.findSome?_eq_none_iff]

end FirstFault

private theorem scanFaultOfItems?_eq_findSome? {items : List Json} :
    scanFaultOfItems? deep calls items = items.findSome? fun v => scanFault? deep calls v :=
  firstFault_eq_findSome? rfl fun _ _ => rfl

private theorem scanFaultOfEntries?_eq_findSome? {es : Entries Json} :
    scanFaultOfEntries? deep calls es = es.findSome? fun e => scanFault? deep calls e.2 :=
  firstFault_eq_findSome? rfl fun _ _ => rfl

/-- No fault is met exactly in a value that fits into the calls that are left. -/
theorem scanFault?_eq_none_iff : scanFault? deep calls v = none ↔ v.Fits calls := by
  induction v using inductionOn generalizing calls with
  | null | bool _ | float _ | str _ =>
    exact iff_of_true rfl ⟨Nat.zero_le _, every_of_parts_eq rfl trivial⟩
  | int n =>
    have hfits : (int n).Fits calls ↔ fitsDigits n = true := by
      rw [← fitsDigits_int]
      exact ⟨fun h => h.2.self, fun h => ⟨Nat.zero_le _, every_of_parts_eq rfl h⟩⟩
    rw [hfits, scanFault?]
    split
    · next h => exact iff_of_true rfl h
    · next h => exact iff_of_false nofun h
  | arr items ih =>
    -- the brackets take one call, and without one nothing is inside them
    cases calls with
    | zero => exact iff_of_false nofun fun h => absurd h.1 (Nat.not_succ_le_zero _)
    | succ calls =>
      rw [scanFault?, scanFaultOfItems?_eq_findSome?, List.findSome?_eq_none_iff, fits_arr]
      exact forall₂_congr fun v hv => ih v hv
  | obj es ih =>
    cases calls with
    | zero => exact iff_of_false nofun fun h => absurd h.1 (Nat.not_succ_le_zero _)
    | succ calls =>
      rw [scanFault?, scanFaultOfEntries?_eq_findSome?, List.findSome?_eq_none_iff, fits_obj]
      exact forall₂_congr fun e he => ih e he

/-- What is met is a long integer, unless the value is nested too deeply for the calls that are
left. -/
theorem scanFault?_eq_some {f : WriteFault} (h : scanFault? deep calls v = some f) :
    f = .longInteger ∨ f = deep ∧ calls < v.depth := by
  -- the fault is at a number, or the calls are used up at some part
  induction v using inductionOn generalizing calls with
  | null | bool _ | float _ | str _ => cases h
  | int n =>
    rw [scanFault?] at h
    split at h
    · cases h
    · exact .inl (Option.some.inj h).symm
  | arr items ih =>
    cases calls with
    | zero => exact .inr ⟨(Option.some.inj h).symm, Nat.succ_pos _⟩
    | succ calls =>
      rw [scanFault?, scanFaultOfItems?_eq_findSome?] at h
      obtain ⟨v, hv, hfault⟩ := List.exists_of_findSome?_eq_some h
      refine (ih v hv hfault).imp_right fun ⟨hdeep, hlt⟩ => ⟨hdeep, ?_⟩
      by_contra hle
      exact absurd (depth_arr_le_iff.mp (Nat.le_of_not_lt hle) v hv) (Nat.not_le_of_lt hlt)
  | obj es ih =>
    cases calls with
    | zero => exact .inr ⟨(Option.some.inj h).symm, Nat.succ_pos _⟩
    | succ calls =>
      rw [scanFault?, scanFaultOfEntries?_eq_findSome?] at h
      obtain ⟨e, he, hfault⟩ := List.exists_of_findSome?_eq_some h
      refine (ih e he hfault).imp_right fun ⟨hdeep, hlt⟩ => ⟨hdeep, ?_⟩
      by_contra hle
      exact absurd (depth_obj_le_iff.mp (Nat.le_of_not_lt hle) e he) (Nat.not_le_of_lt hlt)

/-! ## Section 2: Writers -/

/-- A value that fits is written, and the calls that are left do not show in the text. -/
theorem encode_of_fits (h : v.Fits calls) : v.encode calls = .ok v.compact := by
  rw [encode, encodeFault?, scanFault?_eq_none_iff.mpr h]

/-- A value that does not fit is not written, and it is not shown in a message either. -/
theorem encode_of_not_fits (h : ¬ v.Fits calls) :
    ∃ f g, v.encode calls = .error f ∧ v.shown calls = .error g := by
  obtain ⟨f, hf⟩ := Option.ne_none_iff_exists'.mp
    (mt (@scanFault?_eq_none_iff .tooDeepToWrite calls v).mp h)
  obtain ⟨g, hg⟩ := Option.ne_none_iff_exists'.mp
    (mt (@scanFault?_eq_none_iff .tooDeepToShow calls v).mp h)
  exact ⟨f, g, by rw [encode, encodeFault?, hf], by rw [shown, showFault?, hg]⟩

/-- With more room a value still fits. -/
theorem Fits.mono {room room' : Nat} (h : v.Fits room) (hle : room ≤ room') : v.Fits room' :=
  ⟨Nat.le_trans h.1 hle, h.2⟩

/-- What can be converted is not too deep for any reader or writer. -/
theorem conversionDepth_le : conversionDepth ≤ maxDepth := Nat.div_le_self _ _

/-- The depth that can be converted is the one for which the calls suffice. -/
theorem le_conversionDepth_iff {n : Nat} :
    n ≤ conversionDepth ↔ ¬ callsLeft < conversionCalls * n := by
  rw [Nat.not_lt, conversionDepth, Nat.le_div_iff_mul_le (by decide), Nat.mul_comm]

/-- The values that are converted and written are those within the limits of the conversion. -/
theorem writeFault?_eq_none_iff : v.writeFault? = none ↔ v.Fits conversionDepth := by
  rw [writeFault?]
  split
  · next h => exact iff_of_false nofun fun hfits => le_conversionDepth_iff.mp hfits.1 h
  · next h =>
    have hdepth : v.depth ≤ conversionDepth := le_conversionDepth_iff.mpr h
    rw [encodeFault?, scanFault?_eq_none_iff]
    exact ⟨fun hfits => ⟨hdepth, hfits.2⟩, fun hfits => hfits.mono conversionDepth_le⟩

/-- A value has a canonical text exactly if it is within the limits of the conversion, and then the
text is its layout. -/
theorem dump_eq_ok_iff {indent : Option Nat} {text : Text} :
    v.dump indent = .ok text ↔ v.Fits conversionDepth ∧ text = v.canonical indent := by
  rw [← writeFault?_eq_none_iff, dump]
  cases v.writeFault? with
  | none => exact ⟨fun h => ⟨rfl, (Except.ok.inj h).symm⟩, fun h => congrArg _ h.2.symm⟩
  | some f => exact iff_of_false nofun fun h => nomatch h.1

/-- A value that can be converted and has no long integers is written in full. -/
theorem dump_of_fits (h : v.Fits conversionDepth) (indent : Option Nat) :
    v.dump indent = .ok (v.canonical indent) :=
  dump_eq_ok_iff.mpr ⟨h, rfl⟩

/-- A value with a fault is not written, whatever the indent. -/
theorem dump_of_writeFault {f : WriteFault} (h : v.writeFault? = some f) (indent : Option Nat) :
    v.dump indent = .error f := by
  rw [dump, h]

/-- A value that is nested too deeply is not converted, whatever it holds. -/
theorem writeFault?_of_too_deep (h : conversionDepth < v.depth) :
    v.writeFault? = some .tooDeepToConvert := by
  have hcalls : callsLeft < conversionCalls * v.depth := by
    by_contra hle
    exact Nat.not_le_of_lt h (le_conversionDepth_iff.mpr hle)
  rw [writeFault?, if_pos hcalls]

/-- A value that can be converted and has an integer of too many digits fails for that integer. -/
theorem writeFault?_of_long_integer (hdepth : v.depth ≤ conversionDepth)
    (hlong : ¬ v.Every FitsDigits) : v.writeFault? = some .longInteger := by
  have hcalls := le_conversionDepth_iff.mp hdepth
  obtain ⟨f, hf⟩ := Option.ne_none_iff_exists'.mp
    (mt (@scanFault?_eq_none_iff .tooDeepToWrite callsLeft v).mp
      fun hfits => hlong hfits.2)
  rcases scanFault?_eq_some hf with rfl | ⟨-, hlt⟩
  · rw [writeFault?, if_neg hcalls, encodeFault?, hf]
  · exact absurd (Nat.le_trans hdepth conversionDepth_le) (Nat.not_le_of_lt hlt)

/-! ## Section 3: Nested arrays -/

/-- The empty array inside some further arrays. -/
def arrays : Nat → Json
  | 0 => .arr []
  | n + 1 => .arr [arrays n]

/-- One array around nothing is nested one level deep. -/
theorem depth_arrays (n : Nat) : (arrays n).depth = n + 1 := by
  induction n with
  | zero => rfl
  | succ n ih => rw [arrays, depth, depth.depthOfItems, depth.depthOfItems, ih, Nat.max_zero]

/-- A property of arrays holds everywhere in nested arrays. -/
theorem every_arrays {p : Json → Prop} (hp : ∀ items, p (.arr items)) (n : Nat) :
    (arrays n).Every p := by
  induction n with
  | zero => exact every_arr.mpr ⟨hp _, nofun⟩
  | succ n ih => exact every_arr.mpr ⟨hp _, List.forall_mem_singleton.mpr ih⟩

/-- Nested arrays that do not fit are too deep, as they have no integer. -/
theorem scanFault?_arrays {n : Nat} (h : calls ≤ n) :
    scanFault? deep calls (arrays n) = some deep := by
  -- one level and one call less for each array
  induction n generalizing calls with
  | zero =>
    obtain rfl := Nat.le_zero.mp h
    rfl
  | succ n ih =>
    cases calls with
    | zero => rfl
    | succ calls =>
      rw [arrays, scanFault?, scanFaultOfItems?, ih (Nat.le_of_succ_le_succ h), Option.some_or]

end FormSchema.Json
