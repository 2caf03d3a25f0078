import FormSchema.Proofs.Engine.Verdict
import FormSchema.Proofs.Outline
import Mathlib.Data.List.Perm.Basic

/-!
# Findings follow the outline

What validation says about a document, ranges apart, depends only on the outline of the document:
neither on the layout of its text, nor on entries that are no fields, nor on properties that no rule
is about.  Where entries stand in another order the same is said in another order.
-/

namespace FormSchema

/-- The remarks of a validation are those of the checks that get through the document. -/
private theorem remarks_diagnose {text : Text} {root : Container}
    (h : Json.parse text = .ok (.obj root)) :
    (diagnose Pass.defaults text).map Diagnostic.remark =
      Check.all.flatMap fun check =>
        if check.Completes root then check.remarks root.preorder else [] := by
  rw [diagnose_document h, Pass.defaults, List.flatMap_map, List.map_flatMap]
  refine congrArg (List.flatMap · Check.all) (funext fun check => ?_)
  rw [Check.contribution?_pass]
  split_ifs with hcompletes
  · rw [Option.getD_some, Check.remarks_preorder]
  · rfl

/-- Whether a check gets through a document that was read depends on the keys in it only, and not on
their order. -/
theorem Check.completes_congr {text text' : Text} {root root' : Container}
    (h : Json.parse text = .ok (.obj root)) (h' : Json.parse text' = .ok (.obj root'))
    (hkeys : root.keys.Perm root'.keys) (check : Check) :
    check.Completes root ↔ check.Completes root' := by
  by_cases hne : check = keyConsistency
  · subst hne
    have hall (c : Container) : (∀ f ∈ c.preorder, (f.prop "key").depth + 2 < Json.maxDepth) ↔
        ∀ key ∈ c.keys, key.depth + 2 < Json.maxDepth := by
      rw [Container.keys, List.forall_mem_map]
    rw [completes_keyConsistency_iff h, completes_keyConsistency_iff h', hall, hall]
    exact forall_congr' fun key => imp_congr_left hkeys.mem_iff
  · exact iff_of_true (completes_of_parse h hne) (completes_of_parse h' hne)

/-- Two documents of one outline are told the same, in the same order, by validation after any
session; and if they differ in nothing but the order of entries, at any depth, and no key of a field
is an array or an object, then they are told the same in another order. -/
theorem Engine.remarks_follow_outline (config : Config) (collection : Collection)
    (steps : List Engine.Step) (snapshot snapshot' : Snapshot) (root root' : Container)
    (h : Json.parse snapshot.text = .ok (.obj root))
    (h' : Json.parse snapshot'.text = .ok (.obj root')) :
    ∃ found found' : List Diagnostic,
      ((Engine.session config Pass.defaults collection steps).validate snapshot).answer =
        .ok found ∧
      ((Engine.session config Pass.defaults collection steps).validate snapshot').answer =
        .ok found' ∧
      (root.outline = root'.outline →
        found.map Diagnostic.remark = found'.map Diagnostic.remark) ∧
      (Json.Agree (.obj root) (.obj root') → Container.KeysScalar root.preorder →
        (found.map Diagnostic.remark).Perm (found'.map Diagnostic.remark)) := by
  refine ⟨diagnose Pass.defaults snapshot.text, diagnose Pass.defaults snapshot'.text, ?_, ?_, ?_⟩
  · rw [(Engine.validate_idle Engine.session_state _).2, Engine.session_passes]
  · rw [(Engine.validate_idle Engine.session_state _).2, Engine.session_passes]
  -- the remarks are read off the fields, check by check
  rw [remarks_diagnose h, remarks_diagnose h']
  constructor
  · intro houtline
    have hsketches := Container.sketches_of_outline_eq houtline
    have hkeys : root.keys.Perm root'.keys := .of_eq (Container.keys_of_sketches_eq hsketches)
    simp only [Check.remarks_of_sketches_eq _ hsketches, Check.completes_congr h h' hkeys]
  · intro hagree hscalar
    have hdistinct := Json.distinct_of_parse h
    have hdistinct' := Json.distinct_of_parse h'
    have hkeys := Container.keys_perm_of_agree hagree hdistinct hdistinct' hscalar
    refine List.Perm.flatMap_left _ fun check _ => ?_
    simp only [Check.completes_congr h h' hkeys]
    split_ifs
    · exact check.remarks_perm_of_agree hagree hdistinct hdistinct' hscalar
    · exact .refl _

/-- A document of three fields, one nested in another. -/
def album : Container :=
  [("a", .obj [("key", .bool true)]),
    ("n", .obj [("key", .str "m"), ("schema", .obj [("c", .obj [])])])]

/-- Another document of the same outline: it has entries that are no fields, and properties that no
rule is about. -/
def albumRevised : Container :=
  [("title", .str "x"), ("a", .obj [("note", .arr []), ("key", .bool true)]),
    ("n", .obj [("schema", .obj [("more", .arr [.obj []]), ("c", .obj [])]), ("key", .str "m")])]

/-- The first document with its entries in another order. -/
def albumReversed : Container :=
  [("n", .obj [("schema", .obj [("c", .obj [])]), ("key", .str "m")]),
    ("a", .obj [("key", .bool true)])]

private theorem outline_album : album.outline = albumRevised.outline := by
  simp [Container.outline, album, albumRevised, Container.levels_cons_obj,
    Container.levels_cons_other, Container.levels, Field.nested?, Entries.get?, Json.entries?,
    Field.sketch, Field.has, Entries.has, Field.prop, Text.ofString, Json.isText]

private theorem agree_album : Json.Agree (.obj album) (.obj albumReversed) :=
  .swap (by decide) (.refl (by decide))
    (.swap (by decide) (.refl (by decide)) (.refl (by decide)))

private theorem keysScalar_album : Container.KeysScalar album.preorder := by
  simp [Container.KeysScalar, album, Container.preorder_cons_obj, Container.preorder, Field.prop,
    Entries.get?, Text.ofString, Json.fields, Json.IsScalar]

/-- The first document laid out on several lines is told the same as the second on one line, and the
third is told the same in another order. -/
theorem Engine.album_remarked_alike :
    ∃ found revised reversed : List Diagnostic,
      (Engine.default.validate (.ofText "a.json"
        (Json.print (Json.canonicalStyle (some 2)) (.obj album)))).answer = .ok found ∧
      (Engine.default.validate (.ofText "b.json"
        (Json.print (Json.canonicalStyle none) (.obj albumRevised)))).answer = .ok revised ∧
      (Engine.default.validate (.ofText "c.json"
        (Json.print (Json.canonicalStyle none) (.obj albumReversed)))).answer = .ok reversed ∧
      album.outline = albumRevised.outline ∧
      found.map Diagnostic.remark = revised.map Diagnostic.remark ∧
      Json.Agree (.obj album) (.obj albumReversed) ∧ Container.KeysScalar album.preorder ∧
      (found.map Diagnostic.remark).Perm (reversed.map Diagnostic.remark) := by
  have halbum := Json.parse_print_canonicalStyle (.obj album) (some 2) (by decide) (by decide)
    (by decide)
  have hrevised := Json.parse_print_canonicalStyle (.obj albumRevised) none (by decide)
    (by decide) (by decide)
  have hreversed := Json.parse_print_canonicalStyle (.obj albumReversed) none (by decide)
    (by decide) (by decide)
  obtain ⟨found, revised, hfound, hanswer, hsame, -⟩ := Engine.remarks_follow_outline
    Config.default (.empty Collection.defaultName) [] (.ofText "a.json" _) (.ofText "b.json" _)
    album albumRevised halbum hrevised
  obtain ⟨found', reversed, hfound', hanswer', -, hperm⟩ := Engine.remarks_follow_outline
    Config.default (.empty Collection.defaultName) [] (.ofText "a.json" _) (.ofText "c.json" _)
    album albumReversed halbum hreversed
  -- both comparisons are with the answer on the first text
  obtain rfl : found = found' := Except.ok.inj (hfound.symm.trans hfound')
  exact ⟨found, revised, reversed, hfound, hanswer, hanswer', outline_album, hsame outline_album,
    agree_album, keysScalar_album, hperm agree_album keysScalar_album⟩

end FormSchema
