import FormSchema.Proofs.CommandLine.Switches
import FormSchema.Proofs.CommandLine.Validation

/-!
# Validation without its command

A path among switches is validated as if the `validate` command stood in front of it.  Whether the
first argument without a dash is a command is decided before any switch is read, so this fails
exactly if the first name to be excluded stands in front of the path and is empty or the name of a
command: then the program takes it for a command, and the switch in front of it for a mistake.
-/

namespace FormSchema.CommandLine

/-! ## Section 1: A word in front -/

/-- Nothing but a mistake can keep a command from being read with a path and such switches. -/
theorem isMisuse_of_takeCommand {word : Text} {before behind : List Given} {path : Text}
    {stop : Stop} (hpath : IsWord path) (hbefore : NamesAreWords before)
    (hbehind : NamesAreWords behind)
    (h : takeCommand word (pathLine before [path] behind) = .error stop) : stop.IsMisuse := by
  have hread {σ : Type} (g : Grammar σ Invocation) (ho : ∀ take, g.operands ≠ .command take)
      (hg : switchNames.all g.takes = true)
      (h : g.read (pathLine before [path] behind) = .error stop) : stop.IsMisuse :=
    g.isMisuse_of_read ho (takes_pathLine hg
      (List.forall_mem_singleton.mpr (g.takes_of_head_ne hpath)) hbefore hbehind) h
  -- every command knows the switches of the line and takes its path as an operand
  unfold takeCommand at h
  split at h
  · next c hc =>
    have hmem := List.mem_of_find?_eq_some hc
    simp only [commands, List.mem_cons, List.not_mem_nil, or_false] at hmem
    rcases hmem with rfl | rfl | rfl | rfl | rfl
    · exact hread ValidateDraft.grammar nofun (by decide) h
    · exact hread CompleteDraft.grammar nofun (by decide) h
    · exact hread InsertDraft.grammar nofun (by decide) h
    · exact hread CatalogDraft.grammar nofun (by decide) h
    · exact hread TemplateDraft.grammar nofun (by decide) h
  · cases h
    trivial

/-! ## Section 2: Both ways to validate -/

/-- Whether a text is taken for a path where a command may stand. -/
def NamesPath (t : Text) : Prop := t ≠ [] ∧ t ∉ commandNames

private theorem isPathRequest_iff {arguments : List Text} {t : Text}
    (ht : arguments.find? (fun t => t.head? ≠ some dash) = some t) :
    isPathRequest arguments = true ↔ NamesPath t := by
  rw [isPathRequest, ht]
  simp [NamesPath]

/-- The first argument without a dash is the first excluded name in front of the path, if any. -/
theorem find?_pathLine {before behind : List Given} {path : Text} (hpath : IsWord path)
    (hbefore : NamesAreWords before) :
    (pathLine before [path] behind).find? (fun t => t.head? ≠ some dash) =
      some ((before.findSome? Given.name?).getD path) := by
  -- switches begin with a dash, so that the first word is a name or the path
  induction before with
  | nil => exact List.find?_cons_of_pos (decide_eq_true hpath)
  | cons s before ih =>
    obtain ⟨hs, hbefore⟩ := List.forall_mem_cons.mp hbefore
    have ih := ih hbefore
    cases s with
    | json => exact ih
    | verbose long => cases long <;> exact ih
    | exclude name =>
      exact List.find?_cons_of_pos (p := fun t : Text => t.head? ≠ some dash)
        (decide_eq_true (hs name rfl))

/-- Paths and switches without a command are read as a validation, if the first argument without a
dash is no command. -/
private theorem ofArguments_pathLine {before behind : List Given} {path : Text}
    (hpath : IsWord path)
    (hbefore : NamesAreWords before) (hbehind : NamesAreWords behind)
    (hfirst : NamesPath ((before.findSome? Given.name?).getD path)) :
    Invocation.ofArguments (pathLine before [path] behind) =
      .ok (pathInvocation before [path] behind) := by
  have hread : ValidateDraft.pathGrammar.read (pathLine before [path] behind) =
      .ok (pathInvocation before [path] behind, []) :=
    read_pathLine programName "path" _ (takesPaths_one path)
      (List.forall_mem_singleton.mpr (isPlain_of_isWord hpath)) hbefore hbehind
  rw [Invocation.ofArguments, if_pos ((isPathRequest_iff (find?_pathLine hpath hbefore)).mpr hfirst),
    Grammar.readAll, hread]

/-- Switches that exclude nothing mean nothing in front of a command. -/
theorem unknownToProgram_of_nameless {switches : List Given}
    (h : ∀ s ∈ switches, s.name? = none) : UnknownToProgram (switches.flatMap Given.arguments) := by
  refine List.forall_mem_flatMap.mpr fun s hs t ht => ?_
  rcases mem_arguments ht with ht | ht
  · exact unknownToProgram_switchNames t ht
  · rw [h s hs] at ht
    cases ht

/-- A name to be excluded is taken for the command if none of them is in front of it, and it can
be no path. -/
theorem ofArguments_pathLine_of_not {before behind : List Given} {path name : Text}
    (hpath : IsWord path) (hbefore : NamesAreWords before) (hbehind : NamesAreWords behind)
    (hfirst : before.findSome? Given.name? = some name) (hname : ¬NamesPath name) :
    ∃ program m, Invocation.ofArguments (pathLine before [path] behind) =
      .error (.misuse program m) := by
  have hrequest : ¬isPathRequest (pathLine before [path] behind) = true := by
    rwa [isPathRequest_iff (find?_pathLine hpath hbefore), hfirst]
  obtain ⟨front, s, rest, rfl, hs, hnames⟩ := List.findSome?_eq_some_iff.mp hfirst
  obtain ⟨hfront, hs', hrest⟩ : NamesAreWords front ∧ IsWord name ∧ NamesAreWords rest :=
    ⟨fun t ht => hbefore t (by simp [ht]), hbefore s (by simp) name hs,
      fun t ht => hbefore t (by simp [ht])⟩
  obtain rfl : s = .exclude name := by
    cases s with
    | exclude n => exact congrArg Given.exclude (Option.some.inj hs)
    | _ => cases hs
  have hline : pathLine (front ++ .exclude name :: rest) [path] behind =
      (front.flatMap Given.arguments ++ [Text.ofString "--exclude"]) ++
        name :: pathLine rest [path] behind := by
    simp [pathLine, Given.arguments]
  have hunknown : UnknownToProgram (front.flatMap Given.arguments ++ [Text.ofString "--exclude"]) :=
    List.forall_mem_append.mpr ⟨unknownToProgram_of_nameless hnames,
      List.forall_mem_singleton.mpr (unknownToProgram_switchNames _ (by decide))⟩
  have hread := read_command hunknown hs'
    (takes_pathLine (g := commandGrammar) (by decide)
      (List.forall_mem_singleton.mpr (Grammar.takes_of_head_ne _ hpath)) hrest hbehind)
  rw [Invocation.ofArguments, if_neg hrequest, Grammar.readAll, hline, hread]
  cases htake : takeCommand name (pathLine rest [path] behind) with
  | error stop =>
    have hmisuse := isMisuse_of_takeCommand hpath hrest hbehind htake
    cases stop with
    | misuse program m => exact ⟨program, m, rfl⟩
    | _ => cases hmisuse
  | ok made =>
    -- whatever the command makes of the rest, its own name stood behind a switch it has not got
    cases hleft : (front.flatMap Given.arguments ++ [Text.ofString "--exclude"]) ++ made.2 with
    | nil => simp at hleft
    | cons t left =>
      refine ⟨programName, .unrecognized (t :: left), ?_⟩
      simp only [Except.map, hleft]
      rfl

/-- With `validate` in front, the path among the switches is validated.  Without it the outcome is
the same, unless the first name excluded in front of the path is empty or the name of a command:
then the arguments are misused, which no validation says. -/
theorem default_mode_validates (disk : Disk) (before behind : List Given) (path : Text)
    (hpath : IsWord path) (hpath' : NamesPath path) (hbefore : NamesAreWords before)
    (hbehind : NamesAreWords behind) :
    run disk ("validate" :: pathLine before [path] behind) =
        runValidate disk [Path.ofText path] ((before ++ behind).any Given.isJson)
          (some ((before ++ behind).filterMap Given.name?)) ∧
      ((∀ name, before.findSome? Given.name? = some name → NamesPath name) →
        run disk (pathLine before [path] behind) =
          run disk ("validate" :: pathLine before [path] behind)) ∧
      ∀ name, before.findSome? Given.name? = some name → ¬NamesPath name →
        (∃ program m, run disk (pathLine before [path] behind) =
          ⟨disk, [], .stop (.misuse program m)⟩) ∧
        run disk (pathLine before [path] behind) ≠
          run disk ("validate" :: pathLine before [path] behind) := by
  have hvalidate : run disk ("validate" :: pathLine before [path] behind) = _ :=
    run_validate disk (List.cons_ne_nil path [])
      (List.forall_mem_singleton.mpr (isPlain_of_isWord hpath)) hbefore hbehind
  -- the first word decides which of the two parsers reads the line
  refine ⟨hvalidate, fun hfirst => ?_, fun name hfirst hname => ?_⟩
  · rw [hvalidate]
    refine run_of_ofArguments disk (ofArguments_pathLine hpath hbefore hbehind ?_)
    cases hname : before.findSome? Given.name? with
    | none => exact hpath'
    | some name => exact hfirst name hname
  · obtain ⟨program, m, hmisuse⟩ :=
      ofArguments_pathLine_of_not hpath hbefore hbehind hfirst hname
    have hrun :
        run disk (pathLine before [path] behind) = ⟨disk, [], .stop (.misuse program m)⟩ := by
      rw [run, hmisuse]
      rfl
    refine ⟨⟨program, m, hrun⟩, ?_⟩
    rw [hrun, hvalidate]
    exact (runValidate_ending_ne _ _ _ _ _ ∘ Eq.symm) ∘ congrArg Outcome.ending

/-! ## Section 3: A directory with the name of a command -/

private theorem catalog_isWord : NamesAreWords [.exclude "catalog"] := by
  refine List.forall_mem_singleton.mpr ?_
  rintro name ⟨⟩
  decide

/-- Behind the path a directory with the name of a command is excluded alike in both ways; in front
of it, only with `validate`. -/
theorem default_mode_of_catalog_excluded :
    run Disk.formsDisk (pathLine [] ["a.json"] [.exclude "catalog"]) =
        run Disk.formsDisk ("validate" :: pathLine [] ["a.json"] [.exclude "catalog"]) ∧
      run Disk.formsDisk (pathLine [.exclude "catalog"] ["a.json"] []) ≠
        run Disk.formsDisk ("validate" :: pathLine [.exclude "catalog"] ["a.json"] []) := by
  have hpath : NamesPath "a.json" := ⟨by decide, by decide⟩
  have hbehind := default_mode_validates Disk.formsDisk [] [.exclude "catalog"] "a.json" (by decide)
    hpath nofun catalog_isWord
  have hbefore := default_mode_validates Disk.formsDisk [.exclude "catalog"] [] "a.json" (by decide)
    hpath catalog_isWord nofun
  exact ⟨hbehind.2.1 nofun, (hbefore.2.2 "catalog" rfl fun h => h.2 (by decide)).2⟩

private theorem takeCommand_catalog : takeCommand "catalog" ["a.json"] =
    .ok (⟨some (.catalog false), false⟩, ["a.json"]) := by
  have hsorted : CatalogDraft.grammar.SortsTo [(.plain "a.json", "a.json")] :=
    List.forall_mem_singleton.mpr ⟨by decide, rfl⟩
  have htokens : CatalogDraft.grammar.readTokens ⟨{}, false, []⟩ [(.plain "a.json", "a.json")] =
      .ok ⟨{}, false, ["a.json"]⟩ :=
    (Grammar.readTokens_leftover _ rfl).trans (Grammar.readTokens_nil _)
  exact Grammar.read_of_sorted _ hsorted htokens rfl

private theorem findingsOf_formsDisk :
    findingsOf Disk.formsDisk [Disk.pathTo ["a.json"]] = [(Text.ofString "/a.json", [])] := by
  have hfile : Disk.formsDisk.IsDocument (Disk.pathTo ["a.json"]) :=
    ⟨["a.json"], Utf8.encode "\x7b\x7d", rfl, rfl⟩
  obtain ⟨-, place, content, hlook, hfindings⟩ :=
    hfile.validateFile_of_short Disk.wellFormed_formsDisk (by decide)
  rw [Disk.lookForFile_pathTo Disk.wellFormed_formsDisk rfl, if_neg (by decide)] at hlook
  cases hlook
  -- an empty form has no findings
  have hnone : diagnose Pass.defaults (Disk.textOf (Utf8.encode "\x7b\x7d")) = [] :=
    Disk.diagnose_emptyObject
  show [(Text.ofString "/a.json", Disk.formsDisk.findingsAt (Disk.pathTo ["a.json"]))] = _
  rw [hfindings, hnone]

/-- An excluded directory with the name of a command, in front of the path: the arguments are
misused, and with `validate` in front of them the path is validated. -/
theorem catalog_taken_for_command :
    run Disk.formsDisk ["--exclude", "catalog", "a.json"] =
        ⟨Disk.formsDisk, [],
          .stop (.misuse "widget-schema" (.unrecognized ["--exclude", "a.json"]))⟩ ∧
      run Disk.formsDisk ["validate", "--exclude", "catalog", "a.json"] =
        ⟨Disk.formsDisk, [], .exit .success "\n0 diagnostic(s) in 1 document(s)\n"⟩ := by
  constructor
  · -- to the program the switch is unknown, and the name behind it is a command
    have hunknown : UnknownToProgram ["--exclude"] :=
      List.forall_mem_singleton.mpr (unknownToProgram_switchNames _ (by decide))
    have hread : commandGrammar.read ["--exclude", "catalog", "a.json"] =
        .ok (⟨some (.catalog false), false⟩, ["--exclude", "a.json"]) := by
      have h := read_command hunknown (show IsWord "catalog" by decide)
        (show ∀ t ∈ [Text.ofString "a.json"], commandGrammar.takes t = true by decide)
      rw [takeCommand_catalog] at h
      exact h
    have hrequest : ¬isPathRequest ["--exclude", "catalog", "a.json"] = true := by decide
    rw [run, Invocation.ofArguments, if_neg hrequest, Grammar.readAll, hread]
    rfl
  · have hrun := run_validate Disk.formsDisk (List.cons_ne_nil (Text.ofString "a.json") [])
      (List.forall_mem_singleton.mpr (isPlain_of_isWord (by decide))) catalog_isWord
      namesAreWords_nil
    have hcollects : CollectsAll Disk.formsDisk ["catalog"] [Path.ofText "a.json"]
        [[Disk.pathTo ["a.json"]]] :=
      .cons (Disk.collects_of_lookForFile Disk.wellFormed_formsDisk Disk.lookForFile_formsDisk_a
        (by decide) _ _) .nil
    refine hrun.trans ((runValidate_of_collects Disk.wellFormed_formsDisk hcollects false).trans ?_)
    have hnone : Report.diagnosticsTotal ⟨[("/a.json", [])]⟩ = 0 := by
      rw [Report.diagnosticsTotal_eq, Report.sum_byRule]
      rfl
    show showReport Disk.formsDisk false ⟨findingsOf Disk.formsDisk [Disk.pathTo ["a.json"]]⟩ = _
    rw [findingsOf_formsDisk, showReport, if_neg Bool.false_ne_true, reportCode, totalsLine, hnone]
    rfl

end FormSchema.CommandLine
