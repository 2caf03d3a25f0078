import FormSchema.Proofs.Json.Printing
import FormSchema.Proofs.Json.Unambiguous

/-!
# Which texts are parsed, and as what

The meaning of a tree is said without the reader: of the members with one name the last one counts,
and it stands where the first one stood.  A text is parsed exactly if the grammar derives it, its
integers are not too long and its brackets are not nested too deeply, and then as the meaning of its
one tree; every other text is refused.
-/

namespace FormSchema.Json

/-! ## Section 1: Meanings -/

/-- `Means v w`: the tree `v` of a text, where a name may be repeated, has the value `w`. -/
inductive Means : Json → Json → Prop
  | null : Means .null .null
  | bool (b : Bool) : Means (.bool b) (.bool b)
  | int (n : Int) : Means (.int n) (.int n)
  | float (x : Binary64) : Means (.float x) (.float x)
  | str (s : Text) : Means (.str s) (.str s)
  | arr {vs ws : List Json} (hlength : vs.length = ws.length)
      (h : ∀ (i : Nat) (v w : Json), vs[i]? = some v → ws[i]? = some w → Means v w) :
      Means (.arr vs) (.arr ws)
  -- names in the order in which they come first, each with the value of its last member
  | obj {ms es : Entries Json} (hnames : es.names = Text.dedup ms.names)
      (h : ∀ (name : Text) (v w : Json), Entries.get? name ms.reverse = some v →
        Entries.get? name es = some w → Means v w) : Means (.obj ms) (.obj es)

private theorem means_merge (v : Json) : Means v v.merge := by
  induction v using inductionOn with
  | null => exact .null
  | bool b => exact .bool b
  | int n => exact .int n
  | float x => exact .float x
  | str s => exact .str s
  | arr items ih =>
    rw [merge_arr]
    refine .arr (List.length_map merge).symm ?_
    intro i v w hv hw
    rw [List.getElem?_map, hv] at hw
    cases hw
    exact ih v (List.mem_of_getElem? hv)
  | obj ms ih =>
    rw [merge_obj]
    refine .obj (by rw [Entries.names_ofMembers, Entries.names_map]) ?_
    intro name v w hv hw
    -- merging the members one by one commutes with looking for the last of a name
    rw [Entries.get?_ofMembers, ← List.map_reverse, Entries.get?_map, hv] at hw
    cases hw
    have hmem : (name, v) ∈ ms := List.mem_reverse.mp (Entries.mem_of_get? hv)
    exact ih (name, v) hmem

private theorem Means.eq_merge {v w : Json} (h : Means v w) : w = v.merge := by
  -- items are compared place by place, and entries name by name, of which the last one counts
  induction h with
  | null | bool _ | int _ | float _ | str _ => rfl
  | @arr vs ws hlength h ih =>
    rw [merge_arr]
    refine congrArg Json.arr (List.ext_getElem? fun i => ?_)
    rw [List.getElem?_map]
    cases hv : vs[i]? with
    | none =>
      rw [List.getElem?_eq_none_iff] at hv
      exact List.getElem?_eq_none_iff.mpr (hlength ▸ hv)
    | some v =>
      obtain ⟨hi, _⟩ := List.getElem?_eq_some_iff.mp hv
      have hw : ws[i]? = some ws[i] := List.getElem?_eq_getElem (hlength ▸ hi)
      rw [hw, ih i v _ hv hw]
      rfl
  | @obj ms es hnames h ih =>
    rw [merge_obj]
    have hsame : es.names = (Entries.ofMembers (ms.map fun m => (m.1, m.2.merge))).names := by
      rw [hnames, Entries.names_ofMembers, Entries.names_map]
    have hdistinct : es.Distinct := by
      rw [Entries.Distinct, hsame]
      exact Entries.distinct_ofMembers _
    refine congrArg Json.obj (Entries.ext_get? hsame hdistinct ?_)
    intro name u w hu hw
    rw [Entries.get?_ofMembers, ← List.map_reverse, Entries.get?_map] at hw
    obtain ⟨v, hv, rfl⟩ := Option.map_eq_some_iff.mp hw
    exact ih name v u hv hu

private theorem means_iff {v w : Json} : Means v w ↔ w = v.merge :=
  ⟨Means.eq_merge, fun h => h ▸ means_merge v⟩

/-! ## Section 2: Long literals -/

/-- Whether every literal that writes a value as an integer has no more digits than are read. -/
def LiteralFits (v : Json) : Prop :=
  ∀ ⦃n s⦄, WritesNumeral n s → n.fraction = none → n.power = none → n.meaning = v →
    n.whole.length ≤ maxIntegerDigits

private theorem literalFits_iff {v : Json} : v.LiteralFits ↔ v.FitsDigits := by
  cases v with
  | int k =>
    constructor
    · intro h
      -- the printed integer is one of its literals
      have hwrites := WritesNumeral.mk (decide (k < 0)) (isWhole_ofNat k.natAbs) .absent .absent
      have hmeaning : Numeral.meaning ⟨decide (k < 0), Text.ofNat k.natAbs, none, none⟩ =
          .int k := by
        simp only [Numeral.meaning, digitsValue_ofNat, decide_eq_true_iff, Json.int.injEq]
        split <;> omega
      have hlength := h hwrites rfl rfl hmeaning
      rw [(isWhole_ofNat _).length_le_iff (by decide), digitsValue_ofNat] at hlength
      exact hlength
    · intro h n s hn hfraction hpower hmeaning
      cases hn with
      | @mk negative whole f p fraction power hw hf hp =>
        cases hfraction
        cases hpower
        simp only [Numeral.meaning, Json.int.injEq] at hmeaning
        have habs : k.natAbs = digitsValue whole := by
          rw [← hmeaning]
          split <;> omega
        rw [FitsDigits, habs] at h
        exact (hw.length_le_iff (by decide)).mpr h
  | _ =>
    -- no other value is written as an integer
    refine ⟨fun _ => trivial, fun _ n s _ hfraction hpower hmeaning => ?_⟩
    rw [Numeral.meaning, hfraction, hpower] at hmeaning
    cases hmeaning

/-- A tree that keeps within the limits of the parser: its brackets are nested at most so deep, and
its integer literals have at most so many digits. -/
def WithinLimits (v : Json) : Prop := v.depth ≤ maxDepth ∧ v.Every LiteralFits

private theorem withinLimits_iff {v : Json} : v.WithinLimits ↔ v.Readable := by
  simp only [WithinLimits, Readable, Fits, Every, literalFits_iff]

/-! ## Section 3: Parsing -/

/-- A text is parsed as a value exactly if the grammar derives it as a tree within the limits that
means this value; every other text is refused.  The grammar gives no text two trees, so it does not
matter which tree is asked about its limits. -/
theorem parse_decides_grammar (s : Text) :
    (∀ w, parse s = .ok w ↔ ∃ v, Derives (.element v) s ∧ v.WithinLimits ∧ Means v w) ∧
      (∀ v v', Derives (.element v) s → Derives (.element v') s → v = v') ∧
      (∀ v, Derives (.element v) s → ((∃ w, parse s = .ok w) ↔ v.WithinLimits)) ∧
      ((¬ ∃ v, Derives (.element v) s ∧ v.WithinLimits) → ∃ fault, parse s = .error fault) := by
  -- limits and meaning as they are computed are the ones of the statement
  have hparse (w : Json) :
      parse s = .ok w ↔ ∃ v, Derives (.element v) s ∧ v.WithinLimits ∧ Means v w := by
    simp only [parse_eq_ok_iff, withinLimits_iff, means_iff]
  have hunique (v v' : Json) (h : Derives (.element v) s) (h' : Derives (.element v') s) :
      v = v' := h.element_unique h'
  refine ⟨hparse, hunique, ?_, ?_⟩
  · intro v hv
    constructor
    · rintro ⟨w, hw⟩
      obtain ⟨v', hv', hlimits, _⟩ := (hparse w).mp hw
      exact hunique v v' hv hv' ▸ hlimits
    · intro hlimits
      exact ⟨v.merge, (hparse _).mpr ⟨v, hv, hlimits, means_merge v⟩⟩
  · intro hno
    cases hp : parse s with
    | error fault => exact ⟨fault, rfl⟩
    | ok w =>
      obtain ⟨v, hv, hlimits, _⟩ := (hparse w).mp hp
      exact absurd ⟨v, hv, hlimits⟩ hno

end FormSchema.Json
