import FormSchema.Proofs.Check
import FormSchema.Proofs.Json.Order

/-!
# What is said about a document

Ranges apart, a diagnostic says which rule is broken, in which words, and how severe that is.  What
the checks say about a field can be read off its sketch, and so what they say about a document can
be read off its outline: the fields in pre-order, each with its level and its sketch.  Entries in
another order change the order in which things are said, and nothing else.
-/

namespace FormSchema

/-! ## Section 1: Remarks -/

/-- What a diagnostic says, wherever it stands. -/
structure Remark where
  ruleId : Text
  message : Text
  severity : Severity
  deriving DecidableEq

def Diagnostic.remark (d : Diagnostic) : Remark := ⟨d.ruleId, d.message, d.severity⟩

/-- What a check says about a field that breaks its rule. -/
def Check.remark (check : Check) (f : Field) : Remark := (check.diagnosis [] f).remark

/-- The text of a document decides where a finding stands, and not what it says. -/
theorem Check.remark_diagnosis (check : Check) (text : Text) (f : Field) :
    (check.diagnosis text f).remark = check.remark f := by
  cases check <;> rfl

/-- What a check says about some fields, one after the other. -/
def Check.remarks (check : Check) (fields : List Field) : List Remark :=
  fields.filterMap fun f => if check.Breaks f then some (check.remark f) else none

/-- The remarks on the reports of a check are those on the fields in the order of the walk. -/
theorem Check.remarks_preorder (check : Check) (root : Container) (text : Text) :
    (check.reports root text).map Diagnostic.remark = check.remarks root.preorder := by
  rw [reports, remarks, List.map_map]
  induction root.preorder with
  | nil => rfl
  | cons f rest ih =>
    by_cases h : check.Breaks f
    · simp [h, ih, remark_diagnosis]
    · simp [h, ih]

/-! ## Section 2: Fields of which the same is said -/

/-- Two fields that no check can tell apart: they have the same name, the same key and the same
required properties, and the same strings as their data type and their display. -/
structure Field.Alike (f g : Field) : Prop where
  name : f.name = g.name
  key : f.props.get? "key" = g.props.get? "key"
  present : ∀ name ∈ Catalog.requiredProperties, f.has name = g.has name
  dataType : ∀ s, f.props.get? "data_type" = some (.str s) ↔
    g.props.get? "data_type" = some (.str s)
  editor : f.props.get? "display" = some (.str "html-editor") ↔
    g.props.get? "display" = some (.str "html-editor")

section Alike

variable {f g : Field}

/-- If the same is said of one field as of another, it is also the other way round. -/
theorem Field.Alike.symm (h : f.Alike g) : g.Alike f :=
  ⟨h.name.symm, h.key.symm, fun name hname => (h.present name hname).symm,
    fun s => (h.dataType s).symm, h.editor.symm⟩

private theorem Field.has_eq_false_iff {name : Text} :
    f.has name = false ↔ f.props.get? name = none := by
  rw [has, Entries.has, Option.isSome_eq_false_iff, Option.isNone_iff_eq_none]

private theorem Check.Breaks.of_alike {check : Check} (hbreaks : check.Breaks f) (h : f.Alike g) :
    check.Breaks g := by
  cases check with
  | keyConsistency =>
    obtain ⟨key, hkey, hne⟩ := hbreaks
    exact ⟨key, h.key ▸ hkey, h.name ▸ hne⟩
  | requiredProperties =>
    obtain ⟨name, hname, hnone⟩ := hbreaks
    refine ⟨name, hname, Field.has_eq_false_iff.mp ?_⟩
    rw [← h.present name hname]
    exact Field.has_eq_false_iff.mpr hnone
  | dataType =>
    obtain ⟨value, hvalue, hunknown⟩ := hbreaks
    have hhas : g.has "data_type" = true := by
      rw [← h.present "data_type" (by decide), Field.has, Entries.has, hvalue]
      rfl
    obtain ⟨value', hvalue'⟩ := Option.isSome_iff_exists.mp hhas
    refine ⟨value', hvalue', ?_⟩
    -- a known data type of the one field would be that of the other
    rintro name hname rfl
    have hsame := (h.dataType name).mpr hvalue'
    rw [hvalue] at hsame
    exact hunknown name hname (Option.some.inj hsame)
  | htmlEditor => exact ⟨h.editor.mp hbreaks.1, fun harea => hbreaks.2 ((h.dataType _).mpr harea)⟩

private theorem Field.Alike.breaks_iff (h : f.Alike g) (check : Check) :
    check.Breaks f ↔ check.Breaks g :=
  ⟨fun hf => hf.of_alike h, fun hg => hg.of_alike h.symm⟩

private theorem Field.Alike.remark_eq (h : f.Alike g) (check : Check) :
    check.remark f = check.remark g := by
  -- the message of two checks shows something of the field; the other two are constant
  cases check with
  | keyConsistency =>
    have hkey : f.prop "key" = g.prop "key" := by rw [Field.prop, Field.prop, h.key]
    simp only [Check.remark, Check.diagnosis, h.name, hkey, Diagnostic.error, Diagnostic.remark]
  | requiredProperties =>
    have hmissing : Catalog.requiredProperties.filter (fun name => !f.has name) =
        Catalog.requiredProperties.filter fun name => !g.has name :=
      List.filter_congr fun name hname => congrArg (!·) (h.present name hname)
    exact congrArg (fun names => Remark.mk _ (Check.missingMessage names) _) hmissing
  | _ => rfl

/-- What a check says about one field, if it says anything. -/
theorem Check.remarks_singleton (check : Check) (f : Field) :
    check.remarks [f] = if check.Breaks f then [check.remark f] else [] := by
  by_cases h : check.Breaks f <;> simp [remarks, h]

private theorem Check.remarks_cons (check : Check) (f : Field) (rest : List Field) :
    check.remarks (f :: rest) = check.remarks [f] ++ check.remarks rest :=
  List.filterMap_append (l := [f])

private theorem Check.remarks_eq_flatMap (check : Check) (fields : List Field) :
    check.remarks fields = fields.flatMap fun f => check.remarks [f] := by
  induction fields with
  | nil => rfl
  | cons f rest ih => rw [remarks_cons, ih, List.flatMap_cons]

private theorem Field.Alike.remarks_eq (h : f.Alike g) (check : Check) :
    check.remarks [f] = check.remarks [g] := by
  rw [Check.remarks_singleton, Check.remarks_singleton, h.remark_eq]
  exact if_congr (h.breaks_iff check) rfl rfl

end Alike

/-! ## Section 3: Outlines -/

/-- What is looked at in a field: its name, its key and data type if it has them, whether it has a
label, and whether its display is the mark of the HTML editor. -/
structure Field.Sketch where
  name : Text
  key : Option Json
  dataType : Option Json
  labelled : Bool
  inEditor : Bool

def Field.sketch (f : Field) : Field.Sketch :=
  ⟨f.name, f.props.get? "key", f.props.get? "data_type", f.has "label",
    (f.prop "display").isText "html-editor"⟩

private theorem Field.alike_of_sketch_eq {f g : Field} (h : f.sketch = g.sketch) : f.Alike g := by
  simp only [Field.sketch, Field.Sketch.mk.injEq] at h
  obtain ⟨hname, hkey, htype, hlabel, heditor⟩ := h
  refine ⟨hname, hkey, ?_, fun s => by rw [htype], ?_⟩
  · intro name hmem
    rw [show Catalog.requiredProperties = (["data_type", "key", "label"] : List Text) from rfl]
      at hmem
    simp only [List.mem_cons, List.not_mem_nil, or_false] at hmem
    -- the properties that a field has to have are all in its outline
    rcases hmem with rfl | rfl | rfl
    · exact congrArg Option.isSome htype
    · exact congrArg Option.isSome hkey
    · exact hlabel
  · rw [← Field.prop_isText_iff, ← Field.prop_isText_iff, heditor]

namespace Container

/-- The fields of a container in pre-order, each with its level; those under the `schema` of a field
are one level deeper than the field. -/
def levels (level : Nat) : Container → List (Nat × Field)
  | [] => []
  | (name, value) :: rest =>
    match value with
    | .obj props =>
      let field : Field := ⟨name, props⟩
      match _h : field.nested? with
      | some inner => (level, field) :: (levels (level + 1) inner ++ levels level rest)
      | none => (level, field) :: levels level rest
    | _ => levels level rest
termination_by c => sizeOf c
decreasing_by
  -- the nested container is smaller than the entry that holds the field
  · have := sizeOf_nested?_lt _h
    simp only [field] at this
    simp only [List.cons.sizeOf_spec, Prod.mk.sizeOf_spec, Json.obj.sizeOf_spec]
    omega
  all_goals
    simp only [List.cons.sizeOf_spec, Prod.mk.sizeOf_spec]
    omega

/-- The fields in an entry come before those in the next entry, one level deeper. -/
theorem levels_cons_obj (level : Nat) (name : Text) (props : Entries Json) (rest : Container) :
    levels level ((name, .obj props) :: rest) =
      (level, ⟨name, props⟩) ::
        (((Field.nested? ⟨name, props⟩).elim [] (levels (level + 1))) ++ levels level rest) := by
  rw [levels]
  split
  · next h => rw [h]; rfl
  · next h => rw [h]; rfl

/-- An entry that is no object is no field and holds none. -/
theorem levels_cons_other (level : Nat) {name : Text} {value : Json} {rest : Container}
    (h : ∀ props, value ≠ .obj props) :
    levels level ((name, value) :: rest) = levels level rest := by
  cases value with
  | obj props => exact absurd rfl (h props)
  | _ => rw [levels]; simp

/-- The outline of a document: its fields in pre-order, each with its level and its sketch.  The
levels tell which fields are nested in which. -/
def outline (c : Container) : List (Nat × Field.Sketch) :=
  (c.levels 0).map fun e => (e.1, e.2.sketch)

private theorem levels_fields (level : Nat) (c : Container) :
    (c.levels level).map Prod.snd = c.preorder := by
  fun_induction levels level c with
  | case1 => simp [preorder]
  | case2 level name rest props field inner h ihinner ihrest =>
    rw [preorder_cons_nested h, List.map_cons, List.map_append, ihinner, ihrest]
  | case3 level name rest props field h ih => rw [preorder_cons_flat h, List.map_cons, ih]
  | case4 level name value rest hne ih => rw [preorder_cons_other hne, ih]

/-- Outlines that agree list the same sketches. -/
theorem sketches_of_outline_eq {c d : Container} (h : c.outline = d.outline) :
    c.preorder.map Field.sketch = d.preorder.map Field.sketch := by
  have hsketches := congrArg (List.map Prod.snd) h
  simpa only [outline, List.map_map, Function.comp_def, ← levels_fields 0] using hsketches

end Container

/-- The keys of all fields of a document in pre-order, null for a field without one. -/
def Container.keys (c : Container) : List Json := c.preorder.map fun f => f.prop "key"

/-- The keys of a document can be read off the sketches of its fields. -/
theorem Container.keys_of_sketches_eq {c d : Container}
    (h : c.preorder.map Field.sketch = d.preorder.map Field.sketch) : c.keys = d.keys := by
  have hkeys := congrArg (List.map fun s : Field.Sketch => s.key.getD .null) h
  rw [List.map_map, List.map_map] at hkeys
  exact hkeys

/-- Of documents with one outline the checks say the same. -/
theorem Check.remarks_of_sketches_eq (check : Check) {fs gs : List Field}
    (h : fs.map Field.sketch = gs.map Field.sketch) : check.remarks fs = check.remarks gs := by
  -- along both lists at once, since they are equally long
  induction fs generalizing gs with
  | nil =>
    rw [List.map_eq_nil_iff.mp h.symm]
  | cons f fs ih =>
    cases gs with
    | nil => cases h
    | cons g gs =>
      obtain ⟨hfirst, hrest⟩ := List.cons.inj h
      rw [remarks_cons check f, remarks_cons check g, (Field.alike_of_sketch_eq hfirst).remarks_eq,
        ih hrest]

/-! ## Section 4: Entries in another order -/

namespace Json

variable {u v : Json} {es fs : Entries Json}

private theorem Agree.eq_of_scalar (h : Agree u v) (hu : u.IsScalar) : u = v := by
  cases h with
  | arr | obj => cases hu
  | _ => rfl

private theorem Agree.eq_str_iff (h : Agree u v) (s : Text) : u = .str s ↔ v = .str s := by
  cases h <;> simp

/-- Under each name the entries of agreeing objects agree. -/
theorem Agree.get? (h : Agree (.obj es) (.obj fs)) (name : Text) :
    Entries.get? name es = none ∧ Entries.get? name fs = none ∨
      ∃ u v, Entries.get? name es = some u ∧ Entries.get? name fs = some v ∧ Agree u v := by
  cases h with
  | obj hnames h =>
    -- the names are the same, so that both have the name or neither has
    cases hes : Entries.get? name es with
    | none =>
      refine .inl ⟨rfl, Entries.get?_eq_none_iff.mpr ?_⟩
      rw [← hnames.mem_iff]
      exact Entries.get?_eq_none_iff.mp hes
    | some u =>
      have hname : name ∈ Entries.names es := Entries.has_iff.mp (by rw [Entries.has, hes]; rfl)
      have hfs : Entries.has name fs = true := Entries.has_iff.mpr (hnames.mem_iff.mp hname)
      obtain ⟨v, hv⟩ := Option.isSome_iff_exists.mp hfs
      exact .inr ⟨u, v, rfl, hv, h name u v hes hv⟩

private theorem Agree.get?_eq_str_iff (h : Agree (.obj es) (.obj fs)) (name s : Text) :
    Entries.get? name es = some (.str s) ↔ Entries.get? name fs = some (.str s) := by
  rcases h.get? name with ⟨hes, hfs⟩ | ⟨u, v, hu, hv, huv⟩
  · simp [hes, hfs]
  · simpa [hu, hv] using huv.eq_str_iff s

/-- The fields of a value that stands for a container. -/
def fields : Json → List Field
  | obj es => Container.preorder es
  | _ => []

end Json

/-- The order of properties does not show in what is said of a field, unless the key is an array or
an object, which messages show with its order. -/
private theorem Field.alike_of_agree {es fs : Entries Json} (h : Json.Agree (.obj es) (.obj fs))
    (hkey : ∀ key, es.get? "key" = some key → key.IsScalar) (name : Text) :
    Field.Alike ⟨name, es⟩ ⟨name, fs⟩ where
  name := rfl
  key := by
    -- the message shows the key, and only scalars that agree are shown alike
    rcases h.get? "key" with ⟨hes, hfs⟩ | ⟨u, v, hu, hv, huv⟩
    · exact hes.trans hfs.symm
    · rw [hu, hv, huv.eq_of_scalar (hkey u hu)]
  present other _ := by
    rcases h.get? other with ⟨hes, hfs⟩ | ⟨u, v, hu, hv, _⟩
    · simp [Field.has, Entries.has, hes, hfs]
    · simp [Field.has, Entries.has, hu, hv]
  dataType s := h.get?_eq_str_iff "data_type" s
  editor := h.get?_eq_str_iff "display" "html-editor"

namespace Container

/-- A field is followed by the fields in its schema, and then by those behind it. -/
theorem preorder_cons_obj (name : Text) (props : Entries Json) (rest : Container) :
    preorder ((name, .obj props) :: rest) =
      ⟨name, props⟩ :: ((Field.prop ⟨name, props⟩ "schema").fields ++ preorder rest) := by
  -- only an object is entered; any other schema has no fields
  cases hschema : Entries.get? "schema" props with
  | none =>
    rw [preorder_cons_flat (by rw [Field.nested?, hschema]; rfl), Field.prop, hschema]
    rfl
  | some value =>
    rw [Field.prop_eq_of_get? hschema]
    cases value with
    | obj inner =>
      rw [preorder_cons_nested (by rw [Field.nested?, hschema]; rfl)]
      rfl
    | _ =>
      rw [preorder_cons_flat (by rw [Field.nested?, hschema]; rfl)]
      rfl

/-- Whether the key of every field, if it has one, is neither an array nor an object. -/
def KeysScalar (fields : List Field) : Prop :=
  ∀ f ∈ fields, ∀ key, f.props.get? "key" = some key → key.IsScalar

end Container

/-- What is read off the fields of agreeing values is the same in another order, if it is the same
of alike fields; so it is for values that stand for containers, and for values under a name in one.
-/
theorem Container.flatMap_perm_of_agree {β : Type} {g : Field → List β}
    (hg : ∀ f f' : Field, f.Alike f' → g f = g f') {u v : Json} (h : Json.Agree u v)
    (hu : u.Every Json.HasDistinctNames) (hv : v.Every Json.HasDistinctNames) :
    (KeysScalar u.fields → (u.fields.flatMap g).Perm (v.fields.flatMap g)) ∧
      ∀ name, KeysScalar (preorder [(name, u)]) →
        ((preorder [(name, u)]).flatMap g).Perm ((preorder [(name, v)]).flatMap g) := by
  -- the two go together: a container is its entries, and an entry is a field with its `schema`
  induction h with
  | @obj es fs hnames h ih =>
    have hagree : Json.Agree (.obj es) (.obj fs) := .obj hnames h
    have hsub {name : Text} {a b : Json} (ha : Entries.get? name es = some a)
        (hb : Entries.get? name fs = some b) :=
      ih name a b ha hb ((Json.every_obj.mp hu).2 _ (Entries.mem_of_get? ha))
        ((Json.every_obj.mp hv).2 _ (Entries.mem_of_get? hb))
    constructor
    · intro hkeys
      rw [Json.fields, Json.fields, preorder_eq_flatMap es, preorder_eq_flatMap fs,
        List.flatMap_assoc, List.flatMap_assoc]
      refine Entries.flatMap_perm hu.self hnames fun name a b ha hb => (hsub ha hb).2 name ?_
      intro f hf
      apply hkeys f
      rw [Json.fields, preorder_eq_flatMap]
      exact List.mem_flatMap_of_mem (Entries.mem_of_get? ha) hf
    · intro name hkeys
      rw [preorder_cons_obj, preorder, List.append_nil] at hkeys ⊢
      rw [preorder_cons_obj, preorder, List.append_nil, List.flatMap_cons, List.flatMap_cons]
      have halike := Field.alike_of_agree hagree (hkeys _ List.mem_cons_self) name
      rw [hg _ _ halike]
      refine List.Perm.append_left _ ?_
      rcases hagree.get? "schema" with ⟨hes, hfs⟩ | ⟨a, b, ha, hb, -⟩
      · rw [Field.prop, hes, Field.prop, hfs]
      · rw [Field.prop_eq_of_get? ha, Field.prop_eq_of_get? hb]
        rw [Field.prop_eq_of_get? ha] at hkeys
        exact (hsub ha hb).1 fun f hf => hkeys f (List.mem_cons_of_mem _ hf)
  | arr =>
    -- an array is no container, and under a name it is no field
    refine ⟨fun _ => .refl _, fun name _ => ?_⟩
    rw [preorder_cons_other (by simp), preorder_cons_other (by simp)]
  | _ => exact ⟨fun _ => .refl _, fun _ _ => .refl _⟩

section Agree

variable {root root' : Container} (h : Json.Agree (.obj root) (.obj root'))
  (hd : (Json.obj root).Every Json.HasDistinctNames)
  (hd' : (Json.obj root').Every Json.HasDistinctNames)
  (hkeys : Container.KeysScalar root.preorder)
include h hd hd' hkeys

/-- Of agreeing documents the checks say the same in another order. -/
theorem Check.remarks_perm_of_agree (check : Check) :
    (check.remarks root.preorder).Perm (check.remarks root'.preorder) := by
  rw [remarks_eq_flatMap, remarks_eq_flatMap]
  exact (Container.flatMap_perm_of_agree (fun _ _ halike => halike.remarks_eq check) h hd hd').1
    hkeys

/-- Agreeing documents have the same keys. -/
theorem Container.keys_perm_of_agree : root.keys.Perm root'.keys := by
  rw [keys, keys, List.map_eq_flatMap, List.map_eq_flatMap]
  exact (flatMap_perm_of_agree (fun _ _ halike => by rw [Field.prop, Field.prop, halike.key])
    h hd hd').1 hkeys

end Agree

end FormSchema
