import FormSchema.CommandLine.Run
import FormSchema.Proofs.CommandLine.Reading

/-!
# Paths among switches

The switches of a validation may stand before and behind the paths, in any order.  They are read
alike behind the command `validate` and without it: the paths come together, every switch changes
the request in its own part, and nothing is left over.
-/

namespace FormSchema.CommandLine

/-! ## Section 1: Switches -/

/-- A switch of a validation as it is given, with a name to be excluded in an argument of its own.
-/
inductive Given
  | json
  | verbose (long : Bool)
  | exclude (name : Text)

namespace Given

/-- The arguments in which a switch is written. -/
def arguments : Given → List Text
  | json => ["--json"]
  | verbose false => ["-v"]
  | verbose true => ["--verbose"]
  | exclude name => ["--exclude", name]

/-- The name that a switch excludes. -/
def name? : Given → Option Text
  | exclude name => some name
  | _ => none

def isJson : Given → Bool
  | json => true
  | _ => false

def isVerbose : Given → Bool
  | verbose _ => true
  | _ => false

/-- What a switch changes in a request to validate. -/
def apply (d : ValidateDraft) : Given → ValidateDraft
  | json => { d with json := true }
  | verbose _ => { d with verbose := true }
  | exclude name => d.excluding (some name)

/-- The arguments of a switch with what a request to validate sorts them as. -/
def sorted : Given → List (Token ValidateDraft × Text)
  | json => [(.switch "--json" ValidateDraft.switches[1] none, "--json")]
  | verbose false => [(.switch "-v" ValidateDraft.switches[3] none, "-v")]
  | verbose true => [(.switch "--verbose" ValidateDraft.switches[3] none, "--verbose")]
  | exclude name =>
    [(.switch "--exclude" ValidateDraft.switches[2] none, "--exclude"), (.plain name, name)]

private theorem arguments_eq (s : Given) : s.arguments = s.sorted.map (·.2) := by
  cases s with
  | verbose long => cases long <;> rfl
  | _ => rfl

end Given

/-- A text that does not begin with a dash. -/
def IsWord (t : Text) : Prop := t.head? ≠ some dash

instance (t : Text) : Decidable (IsWord t) := inferInstanceAs (Decidable (t.head? ≠ some dash))

/-- Whether the names that some switches exclude do not begin with a dash. -/
def NamesAreWords (switches : List Given) : Prop := ∀ s ∈ switches, ∀ name ∈ s.name?, IsWord name

/-- Without switches there are no names. -/
theorem namesAreWords_nil : NamesAreWords [] := List.forall_mem_nil _

/-- The names under which the switches of a validation are given. -/
def switchNames : List Text := ["--json", "-v", "--verbose", "--exclude"]

/-- Every argument of a switch is its name or the name that it excludes. -/
theorem mem_arguments {s : Given} {t : Text} (ht : t ∈ s.arguments) :
    t ∈ switchNames ∨ t ∈ s.name? := by
  cases s with
  | json => exact .inl (List.mem_singleton.mp ht ▸ by decide)
  | verbose long =>
    cases long
    · exact .inl (List.mem_singleton.mp ht ▸ by decide)
    · exact .inl (List.mem_singleton.mp ht ▸ by decide)
  | exclude name =>
    rcases List.mem_cons.mp ht with rfl | ht
    · exact .inl (by decide)
    · exact .inr (List.mem_singleton.mp ht ▸ rfl)

/-- Several switches change a draft in parts of their own. -/
theorem foldl_apply (switches : List Given) (paths names : List Text) (json verbose : Bool) :
    switches.foldl Given.apply ⟨paths, json, some names, verbose⟩ =
      ⟨paths, json || switches.any Given.isJson, some (names ++ switches.filterMap Given.name?),
        verbose || switches.any Given.isVerbose⟩ := by
  -- the draft changes with every switch, so that it is general in the induction
  induction switches generalizing json names verbose with
  | nil => simp
  | cons s rest ih =>
    rw [List.foldl_cons]
    cases s with
    | exclude name =>
      exact (ih (names ++ [name]) json verbose).trans
        (by simp [Given.isJson, Given.isVerbose, Given.name?])
    | json =>
      exact (ih names true verbose).trans
        (by simp [Given.isJson, Given.isVerbose, List.filterMap_cons, Given.name?])
    | verbose long =>
      exact (ih names json true).trans
        (by simp [Given.isJson, Given.isVerbose, List.filterMap_cons, Given.name?])

/-! ## Section 2: Paths among switches -/

/-- An argument that is taken as it stands, for a path or for a word, although it may begin with a
dash. -/
structure IsPlain (t : Text) : Prop where
  ne_separator : t ≠ separatorText
  sort_validation : ValidateDraft.grammar.sort t = .ok (.plain t)
  sort_command : commandGrammar.sort t = .ok (.plain t)

/-- A word needs no separator in front of it. -/
theorem isPlain_of_isWord {t : Text} (h : IsWord t) : IsPlain t where
  ne_separator := by
    rintro rfl
    exact h rfl
  sort_validation := Grammar.sort_of_head_ne _ h
  sort_command := Grammar.sort_of_head_ne _ h

/-- Paths with switches before and behind them. -/
def pathLine (before : List Given) (paths : List Text) (behind : List Given) : List Text :=
  before.flatMap Given.arguments ++ (paths ++ behind.flatMap Given.arguments)

/-- A path with what a request to validate sorts it as. -/
def plainToken (t : Text) : Token ValidateDraft × Text := (.plain t, t)

/-- The arguments of such a line with what a request to validate sorts them as. -/
def sortedLine (before : List Given) (paths : List Text) (behind : List Given) :
    List (Token ValidateDraft × Text) :=
  before.flatMap Given.sorted ++ (paths.map plainToken ++ behind.flatMap Given.sorted)

/-- The draft of a validation that such a line makes. -/
def pathDraft (before : List Given) (paths : List Text) (behind : List Given) : ValidateDraft :=
  ⟨paths, (before ++ behind).any Given.isJson, some ((before ++ behind).filterMap Given.name?),
    (before ++ behind).any Given.isVerbose⟩

/-- The invocation that such a line makes. -/
def pathInvocation (before : List Given) (paths : List Text) (behind : List Given) : Invocation :=
  ⟨some (.validate (paths.map Path.ofText) ((before ++ behind).any Given.isJson)
    (some ((before ++ behind).filterMap Given.name?))), (before ++ behind).any Given.isVerbose⟩

private theorem map_sorted (switches : List Given) :
    (switches.flatMap Given.sorted).map (·.2) = switches.flatMap Given.arguments := by
  rw [List.map_flatMap]
  exact congrArg switches.flatMap (funext fun s => s.arguments_eq.symm)

private theorem map_plainToken (paths : List Text) : (paths.map plainToken).map (·.2) = paths := by
  rw [List.map_map]
  exact List.map_id paths

private theorem map_sortedLine (before : List Given) (paths : List Text) (behind : List Given) :
    (sortedLine before paths behind).map (·.2) = pathLine before paths behind := by
  rw [sortedLine, pathLine, List.map_append, List.map_append, map_sorted, map_sorted,
    map_plainToken]

/-- Whether operands take some paths that stand together. -/
structure TakesPaths (operands : Operands ValidateDraft) (paths : List Text) : Prop where
  nonempty : paths ≠ []
  count : ∀ rest, (∀ token ∈ List.head? rest, token.isOperand = false) →
    operands.count (paths.map .plain ++ rest) = paths.length
  apply : ∀ d, operands.apply d (paths.map .plain) paths = .ok ({ d with paths := paths }, [])

/-- One path is what a validation without a command takes. -/
theorem takesPaths_one (path : Text) : TakesPaths ValidateDraft.pathGrammar.operands [path] where
  nonempty := List.cons_ne_nil _ _
  count rest hrest := by
    cases rest with
    | nil => rfl
    | cons token rest =>
      -- a separator would be an operand, and none follows
      cases token with
      | separator => exact absurd (hrest _ rfl) (by decide)
      | _ => rfl
  apply d := rfl

private theorem filterMap_plain (paths : List Text) :
    (paths.map Token.plain : List (Token ValidateDraft)).filterMap Token.plain? = paths := by
  rw [List.filterMap_map]
  exact List.filterMap_some

private theorem takesPaths_several {paths : List Text} (h : paths ≠ []) :
    TakesPaths ValidateDraft.grammar.operands paths where
  nonempty := h
  count rest hrest := by
    -- all operands up to the next switch are taken
    have hrun : (paths.map Token.plain ++ rest).takeWhile Token.isOperand =
        (paths.map Token.plain : List (Token ValidateDraft)) := by
      rw [List.takeWhile_append_of_pos (List.forall_mem_map.mpr fun _ _ => rfl)]
      cases rest with
      | nil => rw [List.takeWhile_nil, List.append_nil]
      | cons token rest =>
        rw [List.takeWhile_cons_of_neg (by rw [hrest _ rfl]; exact Bool.false_ne_true),
          List.append_nil]
    unfold Operands.count
    simp only [ValidateDraft.grammar, hrun, filterMap_plain, List.isEmpty_iff, h, if_false,
      List.length_map]
  apply d := by
    unfold Operands.apply
    simp only [ValidateDraft.grammar, filterMap_plain]

/-! ## Section 3: Reading -/

/-- A grammar with the switches of a request to validate. -/
def validation (program : Text) (operands : Operands ValidateDraft) (names : Text) :
    Grammar ValidateDraft Invocation :=
  ⟨program, ValidateDraft.switches, operands, {}, ValidateDraft.finish names⟩

section Validation

variable (program names : Text) (operands : Operands ValidateDraft)

/-- The arguments of a switch are sorted alike by every grammar of a validation. -/
theorem sortsTo_sorted {s : Given} (hs : ∀ name ∈ s.name?, IsWord name) :
    (validation program operands names).SortsTo s.sorted := by
  cases s with
  | json => exact List.forall_mem_singleton.mpr ⟨by decide, rfl⟩
  | verbose long =>
    cases long
    · exact List.forall_mem_singleton.mpr ⟨by decide, rfl⟩
    · exact List.forall_mem_singleton.mpr ⟨by decide, rfl⟩
  | exclude name =>
    -- a word is no switch, not even where a value is looked for
    have hname : IsWord name := hs name rfl
    refine List.forall_mem_cons.mpr ⟨⟨by decide, rfl⟩, List.forall_mem_singleton.mpr ⟨?_, ?_⟩⟩
    · rintro rfl
      exact hname rfl
    · exact Grammar.sort_of_head_ne _ hname

private theorem sortsTo_sortedLine {before behind : List Given} {paths : List Text}
    (hpaths : ∀ t ∈ paths, IsPlain t) (hbefore : NamesAreWords before)
    (hbehind : NamesAreWords behind) :
    (validation program operands names).SortsTo (sortedLine before paths behind) := by
  -- each argument is sorted on its own
  have hswitches {switches : List Given} (h : NamesAreWords switches) :
      (validation program operands names).SortsTo (switches.flatMap Given.sorted) := by
    intro e he
    obtain ⟨s, hs, he⟩ := List.mem_flatMap.mp he
    exact sortsTo_sorted program names operands (h s hs) e he
  refine List.forall_mem_append.mpr ⟨hswitches hbefore, List.forall_mem_append.mpr
    ⟨List.forall_mem_map.mpr fun t ht => ?_, hswitches hbehind⟩⟩
  exact ⟨(hpaths t ht).ne_separator, (hpaths t ht).sort_validation⟩

/-- A switch changes the draft, whatever stands behind it. -/
theorem readTokens_sorted {s : Given} (hs : ∀ name ∈ s.name?, IsWord name) (d : ValidateDraft)
    (taken : Bool) (left : List Text) (rest : List (Token ValidateDraft × Text)) :
    (validation program operands names).readTokens ⟨d, taken, left⟩ (s.sorted ++ rest) =
      (validation program operands names).readTokens ⟨s.apply d, taken, left⟩ rest := by
  -- every switch takes one step; only the names that follow differ
  have hstep (name : Text) (sw : Switch ValidateDraft) (rest : List (Token ValidateDraft × Text))
      (hperform : (validation program operands names).performAll (nextPlain? rest) d [⟨sw, none⟩] =
        .ok (s.apply d)) :
      (validation program operands names).readTokens ⟨d, taken, left⟩
          ((.switch name sw none, name) :: rest) =
        (validation program operands names).readTokens ⟨s.apply d, taken, left⟩
          (rest.drop (if [Use.mk sw none].any Use.takesNext then 1 else 0)) :=
    Grammar.readTokens_switch _ rfl hperform
  cases s with
  | json => exact hstep "--json" ValidateDraft.switches[1] rest rfl
  | verbose long =>
    cases long
    · exact hstep "-v" ValidateDraft.switches[3] rest rfl
    · exact hstep "--verbose" ValidateDraft.switches[3] rest rfl
  | exclude name =>
    refine hstep "--exclude" ValidateDraft.switches[2] ((.plain name, name) :: rest) ?_
    have hproper : properValue? name = some name := by
      refine if_neg ?_
      rintro rfl
      exact hs _ rfl rfl
    show Except.ok (ValidateDraft.excluding (properValue? name) d) = _
    rw [hproper]
    rfl

private theorem readTokens_flatMap_sorted {switches : List Given}
    (hswitches : NamesAreWords switches)
    (d : ValidateDraft) (taken : Bool) (left : List Text)
    (rest : List (Token ValidateDraft × Text)) :
    (validation program operands names).readTokens ⟨d, taken, left⟩
        (switches.flatMap Given.sorted ++ rest) =
      (validation program operands names).readTokens ⟨switches.foldl Given.apply d, taken, left⟩
        rest := by
  -- one switch after the other, while the draft changes
  induction switches generalizing d with
  | nil => rfl
  | cons s switches ih =>
    obtain ⟨hs, hrest⟩ := List.forall_mem_cons.mp hswitches
    rw [List.flatMap_cons, List.append_assoc, readTokens_sorted program names operands hs, ih hrest]
    rfl

/-- The operands are taken with the first path, and the others along with it. -/
theorem readTokens_paths {paths : List Text} (hoperands : TakesPaths operands paths)
    (d : ValidateDraft) (rest : List (Token ValidateDraft × Text))
    (hnext : ∀ token ∈ (rest.map (·.1)).head?, token.isOperand = false) :
    (validation program operands names).readTokens ⟨d, false, []⟩ (paths.map plainToken ++ rest) =
      (validation program operands names).readTokens ⟨{ d with paths := paths }, true, []⟩ rest := by
  have hcount := hoperands.count _ hnext
  have happly := hoperands.apply d
  -- the first path calls for operands, which take the others together with it
  cases paths with
  | nil => exact absurd rfl hoperands.nonempty
  | cons path others =>
    have htake : (others.map plainToken ++ rest).take others.length = others.map plainToken := by
      rw [← List.length_map (f := plainToken), List.take_left]
    have hdrop : (others.map plainToken ++ rest).drop others.length = rest := by
      rw [← List.length_map (f := plainToken), List.drop_left]
    have hcount' : operands.count
        ((plainToken path :: (others.map plainToken ++ rest)).map (·.1)) = others.length + 1 := by
      rw [List.map_cons, List.map_append, List.map_map]
      exact hcount
    have happly' : operands.apply d ((plainToken path :: others.map plainToken).map (·.1))
        ((plainToken path :: others.map plainToken).map (·.2)) =
          .ok ({ d with paths := path :: others }, []) := by
      rw [← List.map_cons, map_plainToken, List.map_map]
      exact happly
    rw [← htake] at happly'
    rw [List.map_cons, List.cons_append]
    refine (Grammar.readTokens_plain _ rfl hcount' happly').trans ?_
    rw [hdrop]
    rfl

/-- Switches begin with no operand. -/
theorem isOperand_head_sorted (switches : List Given) :
    ∀ token ∈ ((switches.flatMap Given.sorted).map (·.1)).head?, token.isOperand = false := by
  -- no switch begins with an operand
  cases switches with
  | nil => nofun
  | cons s rest =>
    intro token htoken
    cases s with
    | verbose long => cases long <;> · cases htoken; rfl
    | _ => cases htoken; rfl

/-- The switches on both sides of the paths and the paths make up the request. -/
private theorem readTokens_sortedLine {before behind : List Given} {paths : List Text}
    (hoperands : TakesPaths operands paths) (hbefore : NamesAreWords before)
    (hbehind : NamesAreWords behind) :
    (validation program operands names).readTokens ⟨{}, false, []⟩
        (sortedLine before paths behind) =
      .ok ⟨pathDraft before paths behind, true, []⟩ := by
  -- the switches behind the paths are read when the paths are taken already
  have hrest (d : ValidateDraft) :
      (validation program operands names).readTokens ⟨d, true, []⟩ (behind.flatMap Given.sorted) =
        .ok ⟨behind.foldl Given.apply d, true, []⟩ := by
    have h := readTokens_flatMap_sorted program names operands hbehind d true [] []
    rwa [List.append_nil, Grammar.readTokens_nil] at h
  rw [sortedLine, readTokens_flatMap_sorted program names operands hbefore,
    readTokens_paths program names operands hoperands _ _ (isOperand_head_sorted behind), hrest,
    foldl_apply, foldl_apply, pathDraft, List.any_append, List.any_append, List.filterMap_append]
  rfl

/-- Every grammar of a validation reads paths among switches alike. -/
theorem read_pathLine {before behind : List Given} {paths : List Text}
    (hoperands : TakesPaths operands paths) (hpaths : ∀ t ∈ paths, IsPlain t)
    (hbefore : NamesAreWords before) (hbehind : NamesAreWords behind) :
    (validation program operands names).read (pathLine before paths behind) =
      .ok (pathInvocation before paths behind, []) := by
  rw [← map_sortedLine]
  refine Grammar.read_of_sorted _ (sortsTo_sortedLine program names operands hpaths hbefore hbehind)
    (readTokens_sortedLine program names operands hoperands hbefore hbehind) ?_
  -- at least one path was taken, so that nothing is missing
  have hne : ¬(pathDraft before paths behind).paths.isEmpty = true := by
    rw [List.isEmpty_iff]
    exact hoperands.nonempty
  exact if_neg hne

end Validation

/-! ## Section 4: The command in front -/

/-- Arguments that mean nothing in front of a command. -/
def UnknownToProgram (arguments : List Text) : Prop :=
  ∀ t ∈ arguments, t ≠ separatorText ∧ commandGrammar.sort t = .ok (.unknown t)

/-- Such arguments with what they are sorted as. -/
def unknownTokens (arguments : List Text) : List (Token Invocation × Text) :=
  arguments.map fun t => (.unknown t, t)

private theorem map_unknownTokens (arguments : List Text) :
    (unknownTokens arguments).map (·.2) = arguments := by
  rw [unknownTokens, List.map_map]
  exact List.map_id arguments

private theorem readTokens_unknownTokens (p : Progress Invocation) (unknown : List Text)
    (rest : List (Token Invocation × Text)) :
    commandGrammar.readTokens p (unknownTokens unknown ++ rest) =
      commandGrammar.readTokens { p with left := p.left ++ unknown } rest := by
  -- what is unknown is put aside, in order
  induction unknown generalizing p with
  | nil => simp [unknownTokens]
  | cons t unknown ih =>
    have h := ih { p with left := p.left ++ [t] }
    rw [List.append_assoc] at h
    exact (Grammar.readTokens_unknown commandGrammar).trans h

/-- The first argument without a dash is the command, and it takes all that follow. -/
theorem read_command {unknown rest : List Text} {word : Text} (hunknown : UnknownToProgram unknown)
    (hword : IsWord word) (hrest : ∀ t ∈ rest, commandGrammar.takes t = true) :
    commandGrammar.read (unknown ++ word :: rest) =
      (takeCommand word rest).map fun made => (made.1, unknown ++ made.2) := by
  obtain ⟨sorted, rfl, hsorted, -⟩ := commandGrammar.exists_sorted hrest
  -- what the program does not know is left over, then the command takes all that stands behind it
  have hline : commandGrammar.SortsTo (unknownTokens unknown ++ (.plain word, word) :: sorted) := by
    refine List.forall_mem_append.mpr ⟨?_, List.forall_mem_cons.mpr ⟨⟨?_, ?_⟩, hsorted⟩⟩
    · exact List.forall_mem_map.mpr fun t ht => hunknown t ht
    · rintro rfl
      exact hword rfl
    · exact Grammar.sort_of_head_ne _ hword
  have hmap : (unknownTokens unknown ++ (.plain word, word) :: sorted).map (·.2) =
      unknown ++ word :: sorted.map (·.2) := by
    rw [List.map_append, map_unknownTokens, List.map_cons]
  have hcount : commandGrammar.operands.count
      (((Token.plain word, word) :: sorted).map (·.1)) = sorted.length + 1 := by
    show (((Token.plain word, word) :: sorted).map (·.1)).length = _
    rw [List.length_map, List.length_cons]
  have htake : commandGrammar.operands.apply ⟨none, false⟩
      (((Token.plain word, word) :: sorted.take sorted.length).map (·.1))
      (((Token.plain word, word) :: sorted.take sorted.length).map (·.2)) =
        takeCommand word (sorted.map (·.2)) := by
    rw [List.take_length]
    rfl
  rw [← hmap, Grammar.read, Grammar.sortAll_eq_ok _ hline]
  simp only [Grammar.zip_sorted, readTokens_unknownTokens]
  cases hword : takeCommand word (sorted.map (·.2)) with
  | error stop =>
    rw [Grammar.readTokens_plain_stop _ rfl hcount (htake.trans hword)]
    rfl
  | ok made =>
    rw [Grammar.readTokens_plain _ rfl hcount (htake.trans hword), List.drop_length,
      Grammar.readTokens_nil]
    rfl

section Takes

variable {σ ρ : Type} {g : Grammar σ ρ} (hg : switchNames.all g.takes = true)

include hg

private theorem takes_flatMap_arguments {switches : List Given}
    (hswitches : NamesAreWords switches) :
    ∀ t ∈ switches.flatMap Given.arguments, g.takes t = true := by
  intro t ht
  obtain ⟨s, hs, ht⟩ := List.mem_flatMap.mp ht
  rcases mem_arguments ht with ht | ht
  · exact List.all_eq_true.mp hg t ht
  · exact g.takes_of_head_ne (hswitches s hs t ht)

/-- A line of paths and switches is taken if its paths are. -/
theorem takes_pathLine {before behind : List Given} {paths : List Text}
    (hpaths : ∀ t ∈ paths, g.takes t = true) (hbefore : NamesAreWords before)
    (hbehind : NamesAreWords behind) : ∀ t ∈ pathLine before paths behind, g.takes t = true :=
  List.forall_mem_append.mpr ⟨takes_flatMap_arguments hg hbefore,
    List.forall_mem_append.mpr ⟨hpaths, takes_flatMap_arguments hg hbehind⟩⟩

end Takes

/-- No switch of a validation is one of the program itself. -/
theorem unknownToProgram_switchNames : UnknownToProgram switchNames := by
  simp only [UnknownToProgram, switchNames, List.forall_mem_cons]
  exact ⟨⟨by decide, rfl⟩, ⟨by decide, rfl⟩, ⟨by decide, rfl⟩, ⟨by decide, rfl⟩, nofun⟩

private theorem takes_of_isPlain {t : Text} (h : IsPlain t) : commandGrammar.takes t = true := by
  rw [Grammar.takes, h.sort_command]
  simp [h.ne_separator, Token.sets]

private theorem isPathRequest_validate (arguments : List Text) :
    ¬isPathRequest ("validate" :: arguments) = true := by
  have hfirst : List.find? (fun t : Text => t.head? ≠ some dash) ("validate" :: arguments) =
      some "validate" := List.find?_cons_of_pos (by decide)
  rw [isPathRequest, hfirst]
  decide

/-- Paths among switches behind the command are validated. -/
theorem ofArguments_validate {before behind : List Given} {paths : List Text} (hne : paths ≠ [])
    (hpaths : ∀ t ∈ paths, IsPlain t) (hbefore : NamesAreWords before)
    (hbehind : NamesAreWords behind) :
    Invocation.ofArguments ("validate" :: pathLine before paths behind) =
      .ok (pathInvocation before paths behind) := by
  -- two parsers share the line: the program takes the command, and the command the rest
  have hread := read_command (show UnknownToProgram [] from nofun)
    (show IsWord "validate" by decide)
    (takes_pathLine (g := commandGrammar) (by decide) (fun t ht => takes_of_isPlain (hpaths t ht))
      hbefore hbehind)
  have htake : takeCommand "validate" (pathLine before paths behind) =
      .ok (pathInvocation before paths behind, []) :=
    read_pathLine (programOf "validate") "paths" _ (takesPaths_several hne) hpaths hbefore hbehind
  rw [htake, List.nil_append] at hread
  rw [Invocation.ofArguments, if_neg (isPathRequest_validate _), Grammar.readAll, hread]
  rfl

/-- A run performs the request that its arguments are read as. -/
theorem run_of_ofArguments (disk : Disk) {arguments : List Text} {request : Request}
    {verbose : Bool} (h : Invocation.ofArguments arguments = .ok ⟨some request, verbose⟩) :
    run disk arguments = runRequest disk verbose request := by
  rw [run, h]

/-- The command with paths and switches validates the paths as the switches say. -/
theorem run_validate (disk : Disk) {before behind : List Given} {paths : List Text}
    (hne : paths ≠ []) (hpaths : ∀ t ∈ paths, IsPlain t) (hbefore : NamesAreWords before)
    (hbehind : NamesAreWords behind) :
    run disk ("validate" :: pathLine before paths behind) =
      runValidate disk (paths.map Path.ofText) ((before ++ behind).any Given.isJson)
        (some ((before ++ behind).filterMap Given.name?)) :=
  run_of_ofArguments disk (ofArguments_validate hne hpaths hbefore hbehind)

/-- The command with one switch for JSON prints the report as JSON. -/
theorem run_validate_json (disk : Disk) {paths : List Text} (hne : paths ≠ [])
    (hpaths : ∀ t ∈ paths, IsPlain t) :
    run disk ("validate" :: (paths ++ [Text.ofString "--json"])) =
      runValidate disk (paths.map Path.ofText) true (some []) := by
  have hjson : NamesAreWords [.json] :=
    List.forall_mem_singleton.mpr fun name hname => nomatch hname
  exact run_validate disk hne hpaths namesAreWords_nil hjson

/-- An argument that is unknown to a validation is no path, so that the path is missing. -/
theorem takeCommand_unknown {t : Text} (hsep : t ≠ separatorText)
    (hsort : ValidateDraft.grammar.sort t = .ok (.unknown t)) :
    takeCommand "validate" [t, "--json"] =
      .error (.misuse (programOf "validate") (.missing ["paths"])) := by
  let g := validation (programOf "validate") ValidateDraft.grammar.operands "paths"
  have hnames : ∀ name ∈ Given.json.name?, IsWord name := nofun
  have hsorted : g.SortsTo ((.unknown t, t) :: Given.json.sorted) :=
    List.forall_mem_cons.mpr ⟨⟨hsep, hsort⟩, sortsTo_sorted _ _ _ hnames⟩
  -- the unknown argument is put aside, and so no path is left to be taken
  have htokens : g.readTokens ⟨{}, false, []⟩ ((.unknown t, t) :: Given.json.sorted) =
      .ok ⟨{ json := true }, false, [t]⟩ :=
    (Grammar.readTokens_unknown g).trans
      ((readTokens_sorted _ _ _ hnames {} false [t] []).trans (Grammar.readTokens_nil g))
  exact Grammar.read_eq_missing g hsorted htokens rfl

/-- An argument that looks like a switch is no path, and the paths are missing. -/
theorem run_validate_unknown (disk : Disk) {t : Text} (hsep : t ≠ separatorText)
    (hsort : ValidateDraft.grammar.sort t = .ok (.unknown t))
    (htakes : commandGrammar.takes t = true) :
    run disk ["validate", t, "--json"] =
      ⟨disk, [], .stop (.misuse (programOf "validate") (.missing ["paths"]))⟩ := by
  -- to the program both arguments are operands of the command
  have htaken : ∀ u ∈ [t, Text.ofString "--json"], commandGrammar.takes u = true :=
    List.forall_mem_cons.mpr ⟨htakes, List.forall_mem_singleton.mpr (by decide)⟩
  have hread := read_command (show UnknownToProgram [] from nofun)
    (show IsWord "validate" by decide) htaken
  rw [takeCommand_unknown hsep hsort, List.nil_append] at hread
  have hmisuse : Invocation.ofArguments ["validate", t, "--json"] =
      .error (.misuse (programOf "validate") (.missing ["paths"])) := by
    rw [Invocation.ofArguments, if_neg (isPathRequest_validate _), Grammar.readAll, hread]
    rfl
  rw [run, hmisuse]
  rfl

end FormSchema.CommandLine
