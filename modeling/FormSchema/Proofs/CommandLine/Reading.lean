import FormSchema.CommandLine.Grammar

/-!
# Steps of the reader of arguments

One equation for each kind of argument that a grammar takes: a switch is performed, the operands are
taken once, with the first plain argument, and an unknown switch is left over.  What is read of some
arguments ends in a misuse, or in settings, unless a switch among them asks for something else.
-/

namespace FormSchema.CommandLine.Grammar

variable {σ ρ : Type} (g : Grammar σ ρ) {p : Progress σ} {given : Text}
  {rest : List (Token σ × Text)} {settings : σ}

/-! ## Section 1: Sorting -/

/-- An argument that does not begin with a dash is plain. -/
theorem sort_of_head_ne {t : Text} (h : t.head? ≠ some dash) : g.sort t = .ok (.plain t) :=
  if_pos h

/-- Arguments with what each of them is sorted as, none of them the separator. -/
def SortsTo (sorted : List (Token σ × Text)) : Prop :=
  ∀ e ∈ sorted, e.2 ≠ separatorText ∧ g.sort e.2 = .ok e.1

/-- Sorted arguments are their tokens and their texts side by side. -/
theorem zip_sorted (sorted : List (Token σ × Text)) :
    (sorted.map (·.1)).zip (sorted.map (·.2)) = sorted := by
  rw [List.zip_map', List.map_id' sorted]

/-- Arguments that sort to something are sorted. -/
theorem sortAll_eq_ok {sorted : List (Token σ × Text)} (h : g.SortsTo sorted) :
    g.sortAll (sorted.map (·.2)) = .ok (sorted.map (·.1)) := by
  induction sorted with
  | nil => rfl
  | cons e rest ih =>
    obtain ⟨⟨hsep, he⟩, hrest⟩ := List.forall_mem_cons.mp h
    simp only [List.map_cons, sortAll, if_neg hsep, he, ih hrest]

/-! ## Section 2: Reading -/

/-- At the end of the arguments reading is done. -/
theorem readTokens_nil : g.readTokens p [] = .ok p := by
  rw [readTokens.eq_def]

/-- A switch is performed with what it uses, and the arguments that it uses are passed over. -/
theorem readTokens_switch {name : Text} {s : Switch σ} {attached : Option Text} {us : List (Use σ)}
    (huses : g.usesOf name s attached = .ok us)
    (hperform : g.performAll (nextPlain? rest) p.settings us = .ok settings) :
    g.readTokens p ((.switch name s attached, given) :: rest) =
      g.readTokens ⟨settings, p.taken, p.left⟩
        (rest.drop (if us.any Use.takesNext then 1 else 0)) := by
  rw [readTokens, huses]
  simp only [hperform]

/-- The first plain argument begins the operands, and as many are taken as belong to them. -/
theorem readTokens_plain {t : Text} {n : Nat} {left : List Text} (htaken : p.taken = false)
    (hcount : g.operands.count (((.plain t, given) :: rest).map (·.1)) = n + 1)
    (happly : g.operands.apply p.settings (((.plain t, given) :: rest.take n).map (·.1))
      (((.plain t, given) :: rest.take n).map (·.2)) = .ok (settings, left)) :
    g.readTokens p ((.plain t, given) :: rest) =
      g.readTokens ⟨settings, true, p.left ++ left⟩ (rest.drop n) := by
  rw [readTokens.eq_def]
  simp only [htaken, Bool.false_eq_true, if_false, hcount, happly]

/-- Operands that are refused end the reading. -/
theorem readTokens_plain_stop {t : Text} {n : Nat} {stop : Stop} (htaken : p.taken = false)
    (hcount : g.operands.count (((.plain t, given) :: rest).map (·.1)) = n + 1)
    (happly : g.operands.apply p.settings (((.plain t, given) :: rest.take n).map (·.1))
      (((.plain t, given) :: rest.take n).map (·.2)) = .error stop) :
    g.readTokens p ((.plain t, given) :: rest) = .error stop := by
  rw [readTokens.eq_def]
  simp only [htaken, Bool.false_eq_true, if_false, hcount, happly]

/-- A plain argument that is no operand is left over. -/
theorem readTokens_leftover {t : Text}
    (hcount : g.operands.count (((.plain t, given) :: rest).map (·.1)) = 0) :
    g.readTokens p ((.plain t, given) :: rest) =
      g.readTokens { p with left := p.left ++ [given] } rest := by
  rw [readTokens.eq_def]
  simp only [hcount, ite_self]

/-- An unknown switch is left over. -/
theorem readTokens_unknown {t : Text} :
    g.readTokens p ((.unknown t, given) :: rest) =
      g.readTokens { p with left := p.left ++ [t] } rest := by
  rw [readTokens.eq_def]

/-- Arguments are read once they are sorted, their settings collected and the settings complete. -/
theorem read_eq_ok {arguments : List Text} {tokens : List (Token σ)} {result : ρ}
    (hsort : g.sortAll arguments = .ok tokens)
    (htokens : g.readTokens ⟨g.initial, false, []⟩ (tokens.zip arguments) = .ok p)
    (hfinish : g.finish p.settings = .ok result) : g.read arguments = .ok (result, p.left) := by
  rw [read, hsort]
  simp only [htokens, hfinish]

/-- Settings that are not complete make the arguments a misuse. -/
theorem read_eq_missing {sorted : List (Token σ × Text)} {names : List Text}
    (hsorted : g.SortsTo sorted) (htokens : g.readTokens ⟨g.initial, false, []⟩ sorted = .ok p)
    (hfinish : g.finish p.settings = .error names) :
    g.read (sorted.map (·.2)) = .error (.misuse g.program (.missing names)) := by
  rw [read, sortAll_eq_ok g hsorted]
  simp only [zip_sorted, htokens, hfinish]

/-- Reading sorts the arguments, goes through the tokens and then finishes. -/
theorem read_of_sorted {sorted : List (Token σ × Text)} {result : ρ} (hsorted : g.SortsTo sorted)
    (htokens : g.readTokens ⟨g.initial, false, []⟩ sorted = .ok p)
    (hfinish : g.finish p.settings = .ok result) :
    g.read (sorted.map (·.2)) = .ok (result, p.left) := by
  refine g.read_eq_ok (sortAll_eq_ok g hsorted) ?_ hfinish
  rwa [zip_sorted]

end Grammar

/-! ## Section 3: How reading ends early -/

/-- Whether arguments are misused. -/
def Stop.IsMisuse : Stop → Prop
  | .misuse _ _ => True
  | _ => False

/-- Whether an effect changes settings, and does not end the reading. -/
def Effect.sets {σ : Type} : Effect σ → Bool
  | .flag _ => true
  | .value _ => true
  | _ => false

/-- Whether an argument is no switch, or one that stands alone and changes settings. -/
def Token.sets {σ : Type} : Token σ → Bool
  | .switch _ s attached => attached.isNone && s.effect.sets
  | _ => true

/-- Only the operands of a command can end the reading. -/
theorem Operands.apply_ne_error {σ : Type} {o : Operands σ} (ho : ∀ take, o ≠ .command take)
    (settings : σ) (tokens : List (Token σ)) (given : List Text) (stop : Stop) :
    o.apply settings tokens given ≠ .error stop := by
  cases o with
  | none => nofun
  | one set =>
    unfold Operands.apply
    simp only
    split <;> nofun
  | several set => nofun
  | command take => exact absurd rfl (ho take)

namespace Grammar

variable {σ ρ : Type} (g : Grammar σ ρ) {p : Progress σ} {settings : σ} {stop : Stop}

private theorem isMisuse_of_perform {next : Option Text} {u : Use σ}
    (hu : u.switch.effect.sets = true)
    (h : g.perform next settings u = .error stop) : stop.IsMisuse := by
  unfold perform at h
  split at h
  · cases h
  · next heq =>
    rw [heq] at hu
    cases hu
  · next heq =>
    rw [heq] at hu
    cases hu
  · split at h
    · cases h
      trivial
    · split at h
      · cases h
      · cases h
        trivial

/-- Where switches only change settings, the reading ends early with a misuse alone. -/
theorem isMisuse_of_readTokens (ho : ∀ take, g.operands ≠ .command take)
    {tokens : List (Token σ × Text)} (htokens : ∀ e ∈ tokens, e.1.sets = true)
    (h : g.readTokens p tokens = .error stop) : stop.IsMisuse := by
  -- by the tokens: a misused switch stops the reading, and operands without a command do not
  fun_induction g.readTokens p tokens with
  | case1 => cases h
  | case2 p t given rest ih => exact ih (List.forall_mem_cons.mp htokens).2 h
  | case3 =>
    cases h
    trivial
  | case4 p name s attached given rest us huses stop' hperform =>
    have hfirst := (List.forall_mem_cons.mp htokens).1
    rw [Token.sets, Bool.and_eq_true, Option.isNone_iff_eq_none] at hfirst
    obtain ⟨rfl, hs⟩ := hfirst
    obtain rfl : [⟨s, none⟩] = us := Except.ok.inj huses
    cases h
    rw [performAll] at hperform
    split at hperform
    · next hperform' =>
      cases hperform
      exact g.isMisuse_of_perform hs hperform'
    · cases hperform
  | case5 p name s attached given rest us huses changed hperform ih =>
    exact ih (fun e he => (List.forall_mem_cons.mp htokens).2 e (List.mem_of_mem_drop he)) h
  | case6 p token rest hunknown hswitch hcount ih =>
    exact ih (List.forall_mem_cons.mp htokens).2 h
  | case7 p token rest hunknown hswitch n hcount mine stop' happly =>
    exact absurd happly (Operands.apply_ne_error ho _ _ _ _)
  | case8 p token rest hunknown hswitch n hcount mine settings left happly ih =>
    exact ih (fun e he => (List.forall_mem_cons.mp htokens).2 e (List.mem_of_mem_drop he)) h

/-- Whether an argument by itself is taken as plain, as unknown or as a switch that changes
settings. -/
def takes (t : Text) : Bool :=
  t ≠ separatorText &&
    match g.sort t with
    | .ok token => token.sets
    | .error _ => false

/-- What does not begin with a dash is taken as it is. -/
theorem takes_of_head_ne {t : Text} (h : t.head? ≠ some dash) : g.takes t = true := by
  have hsep : t ≠ separatorText := by
    rintro rfl
    exact h rfl
  rw [takes, g.sort_of_head_ne h]
  simp [hsep, Token.sets]

private theorem exists_token_of_takes {t : Text} (h : g.takes t = true) :
    t ≠ separatorText ∧ ∃ token, g.sort t = .ok token ∧ token.sets = true := by
  rw [takes, Bool.and_eq_true, decide_eq_true_eq] at h
  obtain ⟨hsep, htoken⟩ := h
  cases hsort : g.sort t with
  | error m =>
    rw [hsort] at htoken
    cases htoken
  | ok token =>
    rw [hsort] at htoken
    exact ⟨hsep, token, rfl, htoken⟩

/-- Arguments that are taken one by one are sorted together. -/
theorem exists_sorted {arguments : List Text} (h : ∀ t ∈ arguments, g.takes t = true) :
    ∃ sorted : List (Token σ × Text),
      sorted.map (·.2) = arguments ∧ g.SortsTo sorted ∧ ∀ e ∈ sorted, e.1.sets = true := by
  -- argument by argument, none of which depends on another one
  induction arguments with
  | nil => exact ⟨[], rfl, nofun, nofun⟩
  | cons t rest ih =>
    obtain ⟨ht, hrest⟩ := List.forall_mem_cons.mp h
    obtain ⟨hsep, token, hsort, hsets⟩ := g.exists_token_of_takes ht
    obtain ⟨sorted, hsorted, hsorts, hall⟩ := ih hrest
    refine ⟨(token, t) :: sorted, by rw [List.map_cons, hsorted], ?_, ?_⟩
    · exact List.forall_mem_cons.mpr ⟨⟨hsep, hsort⟩, hsorts⟩
    · exact List.forall_mem_cons.mpr ⟨hsets, hall⟩

/-- Without a command among the operands reading ends early only for a misuse. -/
theorem isMisuse_of_read (ho : ∀ take, g.operands ≠ .command take) {arguments : List Text}
    (harguments : ∀ t ∈ arguments, g.takes t = true) (h : g.read arguments = .error stop) :
    stop.IsMisuse := by
  obtain ⟨sorted, rfl, hsorts, hsets⟩ := g.exists_sorted harguments
  rw [read, sortAll_eq_ok g hsorts] at h
  simp only [zip_sorted] at h
  -- a fault of the tokens, an operand that is missing, or no fault at all
  split at h
  · next htokens =>
    cases h
    exact g.isMisuse_of_readTokens ho hsets htokens
  · split at h
    · cases h
      trivial
    · cases h

end FormSchema.CommandLine.Grammar
