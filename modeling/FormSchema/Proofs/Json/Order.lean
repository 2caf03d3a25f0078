import FormSchema.Proofs.Json.Printing
import FormSchema.Proofs.Json.Route
import FormSchema.Proofs.Json.Unambiguous
import FormSchema.Proofs.Text.Order
import Mathlib.Data.List.Sort

/-!
# Values up to the order of entries

Two values agree if they differ in nothing but the order in which the entries of their objects
stand.  Sorting the names picks one value among those that agree: the one whose names increase in
every object.  So canonical texts are equal exactly if their values agree.
-/

namespace FormSchema.Json

/-! ## Section 1: Increasing names -/

/-- Whether the names of a value, if it is an object, increase strictly. -/
def NamesIncreasing : Json → Prop
  | obj es => (Entries.names es).Pairwise (· < ·)
  | _ => True

instance : DecidablePred NamesIncreasing := fun
  | obj es => inferInstanceAs (Decidable ((Entries.names es).Pairwise (· < ·)))
  | null | bool _ | int _ | float _ | str _ | arr _ => isTrue trivial

variable {u v w : Json}

/-- Increasing names are distinct. -/
theorem NamesIncreasing.distinct (h : v.NamesIncreasing) : v.HasDistinctNames := by
  cases v with
  | obj es =>
    apply List.Pairwise.imp _ h
    rintro a _ hlt rfl
    exact List.lt_irrefl a hlt
  | _ => trivial

/-- Where all names are increasing, none comes twice. -/
theorem Every.distinct (h : v.Every NamesIncreasing) : v.Every HasDistinctNames :=
  fun u hu => (h u hu).distinct

/-- Entries of distinct names come out of sorting with increasing names. -/
theorem names_sortByName_increasing {es : Entries Json} (hd : es.Distinct) :
    (Entries.names (sortByName es)).Pairwise (· < ·) := by
  have hsorted : (sortByName es).Pairwise fun a b => Text.le a.1 b.1 :=
    List.pairwise_mergeSort (fun a b c => Text.le_trans a.1 b.1 c.1)
      (fun a b => Text.le_total a.1 b.1) es
  have hdistinct : (Entries.names (sortByName es)).Nodup :=
    ((sortByName_perm es).map Prod.fst).nodup_iff.mpr hd
  have hnames : (Entries.names (sortByName es)).Pairwise fun a b => Text.le a b :=
    List.pairwise_map.mpr hsorted
  exact (hnames.and hdistinct).imp fun h => Text.lt_of_le_of_ne h.1 h.2

/-- Sorting does not see in which order entries of distinct names stand. -/
theorem sortByName_eq_of_get? {es fs : Entries Json} (hes : es.Distinct) (hfs : fs.Distinct)
    (h : ∀ name, Entries.get? name es = Entries.get? name fs) : sortByName es = sortByName fs := by
  -- distinct names with the same values are the same entries in another order
  have hperm : es.Perm fs := by
    refine (List.perm_ext_iff_of_nodup (.of_map Prod.fst hes) (.of_map Prod.fst hfs)).mpr ?_
    rintro ⟨name, v⟩
    constructor
    · exact fun hmem => Entries.mem_of_get? ((h name).symm.trans (Entries.get?_of_mem hes hmem))
    · exact fun hmem => Entries.mem_of_get? ((h name).trans (Entries.get?_of_mem hfs hmem))
  have hsorted : (sortByName es).Perm (sortByName fs) :=
    ((sortByName_perm es).trans hperm).trans (sortByName_perm fs).symm
  refine hsorted.eq_of_pairwise (fun a b _ _ hab hba => ?_)
    (List.pairwise_map.mp (names_sortByName_increasing hes))
    (List.pairwise_map.mp (names_sortByName_increasing hfs))
  exact absurd hba (List.lt_asymm hab)

/-- After sorting all names are increasing. -/
theorem increasing_sortNames (hd : v.Every HasDistinctNames) :
    v.sortNames.Every NamesIncreasing := by
  -- the names of each object were distinct, so that sorted they increase
  induction v using inductionOn with
  | null | bool _ | int _ | float _ | str _ => exact every_of_parts_eq rfl trivial
  | arr items ih =>
    rw [sortNames_arr, every_arr, List.forall_mem_map]
    exact ⟨trivial, fun v hv => ih v hv ((every_arr.mp hd).2 v hv)⟩
  | obj es ih =>
    rw [sortNames_obj, every_obj, forall_mem_sorted]
    refine ⟨names_sortByName_increasing ?_, fun e he => ih e he ((every_obj.mp hd).2 e he)⟩
    rw [Entries.Distinct, Entries.names_map]
    exact hd.self

/-! ## Section 2: Agreement -/

/-- `Agree u v`: the values are the same but for the order of the entries in objects. -/
inductive Agree : Json → Json → Prop
  | null : Agree .null .null
  | bool (b : Bool) : Agree (.bool b) (.bool b)
  | int (n : Int) : Agree (.int n) (.int n)
  | float (x : Binary64) : Agree (.float x) (.float x)
  | str (s : Text) : Agree (.str s) (.str s)
  | arr {us vs : List Json} (hlength : us.length = vs.length)
      (h : ∀ (i : Nat) (u v : Json), us[i]? = some u → vs[i]? = some v → Agree u v) :
      Agree (.arr us) (.arr vs)
  | obj {es fs : Entries Json} (hnames : es.names.Perm fs.names)
      (h : ∀ (name : Text) (u v : Json), Entries.get? name es = some u →
        Entries.get? name fs = some v → Agree u v) : Agree (.obj es) (.obj fs)

/-- Agreement goes both ways. -/
theorem Agree.symm (h : Agree u v) : Agree v u := by
  induction h with
  | null => exact .null
  | bool b => exact .bool b
  | int n => exact .int n
  | float x => exact .float x
  | str s => exact .str s
  | arr hlength h ih => exact .arr hlength.symm fun i v u hv hu => ih i u v hu hv
  | obj hnames h ih => exact .obj hnames.symm fun name v u hv hu => ih name u v hu hv

/-- What agrees with the same agrees. -/
theorem Agree.trans (huv : Agree u v) (hvw : Agree v w) : Agree u w := by
  induction huv generalizing w with
  | null | bool _ | int _ | float _ | str _ => exact hvw
  | @arr us vs hlength h ih =>
    cases hvw with
    | @arr _ ws hlength' h' =>
      refine .arr (hlength.trans hlength') fun i u w hu hw => ?_
      -- the item between the two is there, as the lists have one length
      obtain ⟨hi, _⟩ := List.getElem?_eq_some_iff.mp hu
      have hv : vs[i]? = some vs[i] := List.getElem?_eq_getElem (hlength ▸ hi)
      exact ih i u _ hu hv (h' i _ w hv hw)
  | @obj es fs hnames h ih =>
    cases hvw with
    | @obj _ gs hnames' h' =>
      refine .obj (hnames.trans hnames') fun name u w hu hw => ?_
      have hname : name ∈ Entries.names gs := Entries.has_iff.mp (by rw [Entries.has, hw]; rfl)
      obtain ⟨v, hv⟩ := Option.isSome_iff_exists.mp (Entries.has_iff.mpr (hnames'.mem_iff.mpr hname))
      exact ih name u v hu hv (h' name v w hv hw)

/-- Sorting names changes only the order of entries. -/
theorem agree_sortNames (hd : v.Every HasDistinctNames) : Agree v v.sortNames := by
  -- only the order of the entries changes, in each object on its own
  induction v using inductionOn with
  | null => exact .null
  | bool b => exact .bool b
  | int n => exact .int n
  | float x => exact .float x
  | str s => exact .str s
  | arr items ih =>
    rw [sortNames_arr]
    refine .arr (List.length_map sortNames).symm fun i u v hu hv => ?_
    rw [List.getElem?_map, hu] at hv
    cases hv
    have hmem : u ∈ items := List.mem_of_getElem? hu
    exact ih u hmem ((every_arr.mp hd).2 u hmem)
  | obj es ih =>
    rw [sortNames_obj]
    have hnames : (Entries.names (sortByName (es.map fun e => (e.1, e.2.sortNames)))).Perm
        es.names := by
      rw [← Entries.names_map sortNames es]
      exact (sortByName_perm _).map Prod.fst
    refine .obj hnames.symm fun name u v hu hv => ?_
    rw [get?_sorted hd.self hu] at hv
    cases hv
    have hmem : (name, u) ∈ es := Entries.mem_of_get? hu
    exact ih (name, u) hmem ((every_obj.mp hd).2 (name, u) hmem)

/-- Every value agrees with itself. -/
theorem Agree.refl (hd : v.Every HasDistinctNames) : Agree v v :=
  (agree_sortNames hd).trans (agree_sortNames hd).symm

/-- Two entries may come in either order. -/
theorem Agree.swap {name other : Text} {v' : Json} (hne : name ≠ other) (hu : Agree u w)
    (hv : Agree v v') :
    Agree (.obj [(name, u), (other, v)]) (.obj [(other, v'), (name, w)]) := by
  refine .obj (List.Perm.swap _ _ _) fun k x y hx hy => ?_
  -- the name is the first or the second, and its value is found in both
  simp only [Entries.get?] at hx hy
  split at hx
  · next hname =>
    subst hname
    rw [if_neg hne.symm, if_pos rfl] at hy
    cases hx
    cases hy
    exact hu
  · split at hx
    · next hother =>
      rw [if_pos hother] at hy
      cases hx
      cases hy
      exact hv
    · cases hx

/-- Where all names increase there is only one order of entries. -/
theorem Agree.eq_of_increasing (h : Agree u v) (hu : u.Every NamesIncreasing)
    (hv : v.Every NamesIncreasing) : u = v := by
  induction h with
  | null | bool _ | int _ | float _ | str _ => rfl
  | @arr us vs hlength h ih =>
    refine congrArg Json.arr (List.ext_getElem hlength fun i hi hj => ?_)
    have hui : us[i]? = some us[i] := List.getElem?_eq_getElem hi
    have hvi : vs[i]? = some vs[i] := List.getElem?_eq_getElem hj
    exact ih i _ _ hui hvi ((every_arr.mp hu).2 _ (List.mem_of_getElem? hui))
      ((every_arr.mp hv).2 _ (List.mem_of_getElem? hvi))
  | @obj es fs hnames h ih =>
    have hes : (Json.obj es).NamesIncreasing := hu.self
    have hfs : (Json.obj fs).NamesIncreasing := hv.self
    -- the names agree up to their order, and only one order increases
    have heq : es.names = fs.names := by
      refine hnames.eq_of_pairwise (fun a b _ _ hab hba => ?_) hes hfs
      exact absurd hba (List.lt_asymm hab)
    refine congrArg Json.obj (Entries.ext_get? heq hu.distinct.self fun name u v hgu hgv => ?_)
    exact ih name u v hgu hgv ((every_obj.mp hu).2 _ (Entries.mem_of_get? hgu))
      ((every_obj.mp hv).2 _ (Entries.mem_of_get? hgv))

/-- Sorting leaves a value in which all names increase. -/
theorem sortNames_of_increasing (h : v.Every NamesIncreasing) : v.sortNames = v :=
  ((agree_sortNames h.distinct).eq_of_increasing h (increasing_sortNames h.distinct)).symm

/-- One entry is sorted already. -/
theorem sortNames_single (name s : Text) :
    (obj [(name, .str s)]).sortNames = .obj [(name, .str s)] :=
  sortNames_of_increasing (every_obj.mpr ⟨List.pairwise_singleton _ _,
    List.forall_mem_singleton.mpr (every_of_parts_eq rfl trivial)⟩)

/-- Values agree exactly if they are the same after sorting. -/
theorem sortNames_eq_iff (hu : u.Every HasDistinctNames) (hv : v.Every HasDistinctNames) :
    u.sortNames = v.sortNames ↔ Agree u v := by
  constructor
  · intro h
    exact (agree_sortNames hu).trans (h ▸ (agree_sortNames hv).symm)
  · intro h
    have hsorted : Agree u.sortNames v.sortNames :=
      ((agree_sortNames hu).symm.trans h).trans (agree_sortNames hv)
    exact hsorted.eq_of_increasing (increasing_sortNames hu) (increasing_sortNames hv)

/-! ## Section 3: Equal texts -/

/-- Canonical texts are equal exactly if their values agree. -/
theorem canonical_eq_iff (hu : u.Every IsExact) (hv : v.Every IsExact)
    (hdu : u.Every HasDistinctNames) (hdv : v.Every HasDistinctNames) (indent : Option Nat) :
    u.canonical indent = v.canonical indent ↔ Agree u v := by
  rw [← sortNames_eq_iff hdu hdv]
  constructor
  · intro h
    have hderives := derives_canonical hu indent
    rw [h] at hderives
    exact hderives.element_unique (derives_canonical hv indent)
  · intro h
    rw [canonical, canonical, h]

/-- A value in which all names increase is parsed as itself from its canonical text. -/
theorem parse_canonical_of_increasing (hexact : v.Every IsExact) (h : v.Every NamesIncreasing)
    (indent : Option Nat) : parse (v.canonical indent) = .ok v ↔ v.Readable := by
  rw [← parse_canonical_iff hexact h.distinct indent, sortNames_of_increasing h]

end FormSchema.Json
