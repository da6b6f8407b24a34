-- The variables of counted loops. A loop takes its counter and its limit from the
-- level that it stands at, every loop around it counts, and no other name of the
-- code is one of theirs, so a loop has its two variables for itself.
import BlockScript.Proofs.LineWords
import BlockScript.Proofs.Yielding

namespace BlockScript

/-! ## Names by level -/

/-- The variables of a counted loop at a level. -/
def loopNames (level : Int) : List Text := [Name.counter level, Name.limit level]

/-- A name of a variable of some loop. -/
def IsLoopName (t : Text) : Prop := ∃ level, t ∈ loopNames level

theorem Text.ofInt_injective {m n : Int} (h : Text.ofInt m = Text.ofInt n) : m = n := by
  have hsign (k l : Nat) : Text.ofNat k ≠ .char '-' :: Text.ofNat l := by
    intro heq
    have hmem : Glyph.char '-' ∈ Text.ofNat k := heq ▸ List.mem_cons_self
    obtain ⟨c, hc, hdash⟩ := List.mem_map.mp hmem
    cases hdash
    exact absurd (isDigit_toDigits '-' hc) (by decide)
  cases m with
  | ofNat k =>
    cases n with
    | ofNat l => exact congrArg Int.ofNat (Text.ofNat_injective h)
    | negSucc l => exact absurd h (hsign k (l + 1))
  | negSucc k =>
    cases n with
    | ofNat l => exact absurd h.symm (hsign l (k + 1))
    | negSucc l =>
      have hnat := Text.ofNat_injective (List.cons.inj h).2
      exact congrArg Int.negSucc (Nat.succ.inj hnat)

theorem counter_injective {a b : Int} (h : Name.counter a = Name.counter b) : a = b :=
  Text.ofInt_injective (List.append_cancel_left h)

theorem limit_injective {a b : Int} (h : Name.limit a = Name.limit b) : a = b :=
  Text.ofInt_injective (List.append_cancel_left h)

theorem counter_ne_limit (a b : Int) : Name.counter a ≠ Name.limit b := by
  intro h
  have hsecond : Glyph.char 'i' = .char 'n' := (List.cons.inj (List.cons.inj h).2).1
  cases hsecond

theorem nodup_loopNames {a b : Int} (h : a ≠ b) : (loopNames a ++ loopNames b).Nodup := by
  have hcounter : Name.counter a ≠ Name.counter b := fun heq => h (counter_injective heq)
  have hlimit : Name.limit a ≠ Name.limit b := fun heq => h (limit_injective heq)
  simp [loopNames, hcounter, hlimit, counter_ne_limit, (counter_ne_limit _ _).symm]

theorem not_mem_loopNames {a b : Int} (h : a ≠ b) :
    Name.counter a ∉ loopNames b ∧ Name.limit a ∉ loopNames b := by
  have hnodup := List.nodup_append.mp (nodup_loopNames h)
  exact ⟨fun hmem => hnodup.2.2 _ (by simp [loopNames]) _ hmem rfl,
    fun hmem => hnodup.2.2 _ (by simp [loopNames]) _ hmem rfl⟩

/-! ## Other names -/

/-- A name of a loop is an underscore, a letter and a number. -/
theorem IsLoopName.shape {t : Text} (h : IsLoopName t) :
    Text.opens (· == '_') t = true ∧ 2 < t.length := by
  have hlevel (level : Int) : 0 < (Text.ofInt level).length := by
    cases level with
    | ofNat n => simp [Text.ofInt, Text.ofNat, Text.ofChars, List.length_pos_iff]
    | negSucc n => simp [Text.ofInt]
  have hlength (front : Text) (hfront : front.length = 2) (level : Int) :
      2 < (front ++ Text.ofInt level).length := by
    have hpositive := hlevel level
    rw [List.length_append]
    omega
  obtain ⟨level, h⟩ := h
  simp only [loopNames, List.mem_cons, List.not_mem_nil, or_false] at h
  rcases h with rfl | rfl
  · exact ⟨rfl, hlength "_i" rfl level⟩
  · exact ⟨rfl, hlength "_n" rfl level⟩

theorem not_isLoopName_of_opens {t : Text} (h : Text.opens (· == '_') t = false) :
    ¬ IsLoopName t := by
  intro hloop
  rw [hloop.shape.1] at h
  cases h

theorem not_isLoopName_of_make {c : Char} (hc : (c == '_') = false) {id : Json} {drawn : Nat}
    {name : Text} (h : Name.make [.char c] id drawn = .ok name) : ¬ IsLoopName name := by
  refine not_isLoopName_of_opens ?_
  have hopens := opens_make (p := fun d => !(d == '_')) (by simpa using hc) h
  cases name with
  | nil => rfl
  | cons g rest =>
    cases g with
    | char d => simpa [Text.opens] using hopens
    | half n => rfl

/-- No word of the runtime is the variable of a loop, and no name is that is made from an id. -/
theorem vocabulary_unlooped : Vocabulary fun t => ¬ IsLoopName t where
  word w hw := by
    have hopens : ∀ w ∈ runtimeWords, Text.opens (· == '_') (Text.ofString w) = false := by decide
    exact not_isLoopName_of_opens (hopens w hw)
  paramName _ _ _ h := not_isLoopName_of_make (by decide) h
  localName _ _ h := not_isLoopName_of_make (by decide) h
  functionName _ _ _ h := not_isLoopName_of_make (by decide) h

theorem speech_besides (level : Int) : Speech (· ∉ loopNames level) where
  word w hw hmem := vocabulary_unlooped.word w hw ⟨level, hmem⟩
  language w hw hmem := by
    have hshape : ∀ w ∈ languageWords, Text.opens (· == '_') (Text.ofString w) = false ∨
        (Text.ofString w).length ≤ 2 := by decide
    rcases hshape w hw with hopens | hlength
    · exact not_isLoopName_of_opens hopens ⟨level, hmem⟩
    · exact absurd (IsLoopName.shape ⟨level, hmem⟩).2 (Nat.not_lt.mpr hlength)

/-! ## Levels -/

def Node.isLoop (n : Node) : Bool := (n.action?.map ActionKind.isLoop).getD false

/-- The ways down to the nodes that are written out below a body: the nodes that a way leads
through, each in a branch of the one before, the node at its end and the scope there. -/
inductive Way : Scope → List Node → List Node → Scope → Node → Prop
  | here {s : Scope} {body : List Node} {n : Node} : n ∈ body → Way s body [] s n
  | down {s s' s'' : Scope} {body above : List Node} {n m : Node} {kind : ActionKind} {i : Nat} :
      n ∈ body → n.action? = some kind → n.IsWritten s → (i, s') ∈ kind.branches s →
      Way s' (n.branch i) above s'' m → Way s body (n :: above) s'' m

section Ways

variable {s s' : Scope} {body above : List Node} {m : Node}

theorem Way.reached (h : Way s body above s' m) : Reached s body s' m := by
  induction h with
  | here hn => exact .member hn
  | down hn hkind hwritten hbranch _ ih => exact .inside hn hkind hwritten hbranch ih

/-- The level counts the loops on the way, of whatever kind. -/
theorem Way.level (h : Way s body above s' m) :
    s'.level = s.level + above.countP Node.isLoop := by
  induction h with
  | here => simp
  | @down s s₁ s₂ body above n m kind i _ hkind _ hbranch _ ih =>
    have hloop : n.isLoop = kind.isLoop := by simp [Node.isLoop, hkind]
    rw [ih, scope_of_branch hbranch, List.countP_cons, hloop]
    cases kind.isLoop with
    | true =>
      simp only [Scope.inLoop, if_true]
      omega
    | false => simp

end Ways

/-! ## Loops -/

section Loops

variable {n : Node} {s : Scope}

/-- A counted loop that is written out is one statement, at the level of its scope. -/
theorem count_of_repeat (hkind : n.action? = some .repeatBasic) {made : List Stmt}
    (h : n.attempt? {} s = some (.ok made)) :
    ∃ bound round, made = [.count s.level bound round] ∧
      slot n.tag (Argument.slots {} s.object n.arguments) 0 = .ok bound ∧
      (bodyAt (Node.bodies {} n.branches) 0).round s = .ok round := by
  rcases Node.attempt_cases h with ⟨kind, hkind', hmade⟩ | ⟨id, hnone, -⟩
  · cases hkind.symm.trans hkind'
    obtain ⟨bound, hbound, hmade⟩ := ok_of_bind_ok hmade.symm
    obtain ⟨round, hround, hmade⟩ := ok_of_bind_ok hmade
    cases hmade
    exact ⟨bound, round, rfl, hbound, hround⟩
  · cases hkind.symm.trans hnone

theorem await_besides (level : Int) : Text.ofString "await" ∉ loopNames level :=
  fun h => not_isLoopName_of_opens rfl ⟨level, h⟩

theorem nodes_besides (level : Int) (nodes : List Node) :
    NodesPass (Expr.Spoken (· ∉ loopNames level)) (Stmt.Spoken (· ∉ loopNames level)) nodes :=
  pass_spoken (speech_besides level)
    { paramName := fun _ _ id _ name hname hmem =>
        vocabulary_unlooped.paramName (.str id) _ name hname ⟨level, hmem⟩
      localName := fun _ _ id _ name hname hmem =>
        vocabulary_unlooped.localName id name hname ⟨level, hmem⟩
      functionName := fun _ _ id _ name hname hmem =>
        vocabulary_unlooped.functionName (.str id) _ name hname ⟨level, hmem⟩
      await := fun _ _ _ => await_besides level }

/-- The bound of a loop has none of its variables. -/
theorem bound_besides {bound : Expr}
    (h : slot n.tag (Argument.slots {} s.object n.arguments) 0 = .ok bound) (level : Int) :
    bound.Spoken (· ∉ loopNames level) := by
  have hslots := closed_slots (x := {}) (closed_spoken (speech_besides level))
    (fun _ _ h => by cases h) s.object n.arguments (nodes_besides level _).toNamedPass
  exact givesOnly_slot hslots 0 bound h

/-- The loops in a round stand at higher levels, so the round has none of the variables of its
loop. -/
theorem round_besides {round : List Stmt}
    (h : (bodyAt (Node.bodies {} n.branches) 0).round s = .ok round) :
    Stmt.AllSpoken (· ∉ loopNames s.level) round := by
  have hlevels : ∀ level, s.inLoop.level ≤ level →
      Name.counter level ∉ loopNames s.level ∧ Name.limit level ∉ loopNames s.level := by
    intro level hlevel
    have habove : s.level + 1 ≤ level := hlevel
    exact not_mem_loopNames (by omega)
  have hforms := forms_spoken hlevels (speech_besides s.level)
  have hbody := closed_bodies hforms n.branches (nodes_besides s.level _) 0
  exact Stmt.allSpoken_iff.mpr (closed_round hforms.statements hbody (Int.le_refl _) round h)

/-- Where nothing breaks its line, the text of a loop has the variables in its head only. -/
theorem lines_besides (hline : ∀ m ∈ n.walk, m.OnOneLine .all) {level : Int} {bound : Expr}
    {round : List Stmt} (hmade : n.actions {} s = .ok [.count level bound round])
    (hbound : bound.Spoken (· ∉ loopNames level))
    (hround : Stmt.AllSpoken (· ∉ loopNames level) round) (width : Nat) (depth : Int) :
    (∃ ts, lexemes? (bound.render 0) = some ts ∧ ∀ t ∈ loopNames level, t ∉ wordsOf ts) ∧
    ∀ l ∈ Stmt.linesAll depth round, (l.shown width).NoNewline ∧
      ∃ words, lineWords? (l.shown width) = some words ∧ ∀ t ∈ loopNames level, t ∉ words := by
  have hN := speech_besides level
  obtain ⟨⟨hboundForm, hroundForm⟩, -⟩ := wellFormed_actions hline s _ hmade
  constructor
  · refine ⟨_, bound.lexemes_render hboundForm 0, fun t ht hmem => hbound t ?_ ht⟩
    rwa [Expr.wordsOf_fit] at hmem
  · intro l hl
    refine ⟨Line.noNewline_shown (Stmt.noNewline_lines hroundForm depth l hl) width, ?_⟩
    have hspoken : l.Spoken (· ∉ loopNames level) width :=
      Stmt.spoken_linesAll hN depth round hroundForm hround l hl
    obtain ⟨words, hread, hpass⟩ := hspoken.pass hN (await_besides level)
    exact ⟨words, hread, fun t ht hmem => hpass t hmem ht⟩

end Loops

/-- A counted loop that is written out has the variables of the level of the body and of one more
level for each loop around it, whatever its kind. Loops in it have other variables, and nothing
else in the code of the body has the name of one, so neither its bound nor its round names its own.
Where no tag and no id in it breaks its line, its text does not either. -/
theorem loop_variables_are_fresh {body : List Node} {s : Scope} {made : List Stmt}
    (hmade : Node.actionsAll {} body s = .ok made) (width : Nat) (depth : Int) :
    (∀ above s' n, Way s body above s' n → n.action? = some .repeatBasic → n.IsWritten s' →
      ∃ level bound round d, level = s.level + above.countP Node.isLoop ∧
        n.actions {} s' = .ok [.count level bound round] ∧
        ⟨d, "for (let " ++ Name.counter level ++ " = 0, " ++ Name.limit level ++ " = "
              ++ bound.render 0 ++ "; " ++ Name.counter level ++ " < " ++ Name.limit level ++ "; "
              ++ Name.counter level ++ "++) \x7b"⟩
            :: Stmt.linesAll (d + 1) round ++ [⟨d, "\x7d"⟩]
          <:+: Stmt.linesAll depth made ∧
        (∀ t ∈ loopNames level, t ∉ bound.names ∧ t ∉ Stmt.namesAll round) ∧
        (∀ between s'' inner, Way s body (above ++ n :: between) s'' inner →
          (loopNames level ++ loopNames
            (s.level + (above ++ n :: between).countP Node.isLoop)).Nodup) ∧
        ((∀ m ∈ n.walk, m.OnOneLine .all) →
          (∃ ts, lexemes? (bound.render 0) = some ts ∧ ∀ t ∈ loopNames level, t ∉ wordsOf ts) ∧
          ∀ l ∈ Stmt.linesAll (d + 1) round, (l.shown width).NoNewline ∧
            ∃ words, lineWords? (l.shown width) = some words ∧
              ∀ t ∈ loopNames level, t ∉ words)) ∧
    Function.Injective Name.counter ∧ Function.Injective Name.limit ∧
    (∀ a b, Name.counter a ≠ Name.limit b) ∧
    Vocabulary (fun t => ¬ IsLoopName t) ∧ (∀ b ∈ defaultBindings, ¬ IsLoopName b.2.param) ∧
    Stmt.AllOver (fun t => ¬ IsLoopName t) (fun _ => True) made := by
  refine ⟨?_, fun _ _ => counter_injective, fun _ _ => limit_injective, counter_ne_limit,
    vocabulary_unlooped, ?_, ?_⟩
  · intro above s' n hway hkind hwritten
    obtain ⟨inner, d, hinner, hinfix⟩ := lines_of_reached hway.reached hmade depth
    obtain ⟨bound, round, rfl, hbound, hround⟩ :=
      count_of_repeat hkind (attempt_of_written hwritten hinner)
    have hboundWords := bound_besides hbound s'.level
    have hroundWords := round_besides hround
    rw [Stmt.linesAll, Stmt.linesAll, List.append_nil] at hinfix
    refine ⟨s'.level, bound, round, d, hway.level, hinner, hinfix, fun t ht => ⟨?_, ?_⟩, ?_, ?_⟩
    · exact fun hmem => Stmt.names_of_spoken_expr hboundWords t hmem ht
    · have hentry := (speech_besides s'.level).word "Entry" (by decide)
      exact fun hmem => Stmt.names_of_spokenAll hentry round hroundWords t hmem ht
    · intro between s'' inner _
      have hloop : n.isLoop = true := by simp [Node.isLoop, hkind]
      rw [hway.level, List.countP_append, List.countP_cons_of_pos hloop]
      exact nodup_loopNames (by omega)
    · exact fun hline => lines_besides hline hinner hboundWords hroundWords width (d + 1)
  · have hopens : ∀ b ∈ defaultBindings, Text.opens (· == '_') b.2.param = false := by decide
    exact fun b hb => not_isLoopName_of_opens (hopens b hb)
  · exact over_actionsAll vocabulary_unlooped (fun _ _ _ _ => trivial) s made hmade

/-- Counts to two and says the name of a variable of its own. -/
def innerCount : Node :=
  .mk (.str "repeat_basic") [.literal (.int 2)]
    [[.mk (.str "dialog") [.literal (.str "_i7")] [] {}]] {}

def innerChoice : Node := .mk (.str "_if") [.block (.mk (.str "True") [] [] {})] [[innerCount]] {}

def innerEndless : Node := .mk (.str "repeat_inf") [] [[innerChoice]] {}

/-- A counted loop below a condition, an endless loop and another counted loop. -/
def outerCount : Node := .mk (.str "repeat_basic") [.literal (.int 3)] [[innerEndless]] {}

theorem way_to_innerCount : Way { level := 5 } [outerCount]
    [outerCount, innerEndless, innerChoice] { level := 7 } innerCount := by
  have hround : (0, { level := 6 }) ∈ ActionKind.repeatBasic.branches { level := 5 } := .head _
  have hendless : (0, { level := 7 }) ∈ ActionKind.repeatInf.branches { level := 6 } := .head _
  have hchoice : (0, { level := 7 }) ∈ ActionKind.ifOnly.branches { level := 7 } := .head _
  exact .down (.head _) rfl ⟨_, rfl⟩ hround (.down (.head _) rfl ⟨_, rfl⟩ hendless
    (.down (.head _) rfl ⟨_, rfl⟩ hchoice (.here (.head _))))

/-- From level five on, the outer loop counts with `_i5` and the inner one with `_i7`. -/
def outerCountText : Text :=
  "for (let _i5 = 0, _n5 = 3; _i5 < _n5; _i5++) \x7b\n  while (true) \x7b\n"
    ++ "    if (true) \x7b\n      for (let _i7 = 0, _n7 = 2; _i7 < _n7; _i7++) \x7b\n"
    ++ "        self.say(\"_i7\");\n        await Entry.yield();\n      \x7d\n    \x7d\n"
    ++ "    await Entry.yield();\n  \x7d\n  await Entry.yield();\n\x7d\n"

theorem inner_count_has_its_level :
    ∃ made, Node.actionsAll {} [outerCount] { level := 5 } = .ok made ∧
      renderLines 2 (Stmt.linesAll 0 made) = outerCountText ∧
      ∃ bound round, innerCount.actions {} { level := 7 } = .ok [.count 7 bound round] ∧
        ∀ t ∈ loopNames 7, t ∉ bound.names ∧ t ∉ Stmt.namesAll round := by
  obtain ⟨made, hmade, htext⟩ := exists_of_any
    (x := Node.actionsAll {} [outerCount] { level := 5 })
    (p := fun made => renderLines 2 (Stmt.linesAll 0 made) = outerCountText) (by decide +kernel)
  refine ⟨made, hmade, of_decide_eq_true htext, ?_⟩
  obtain ⟨level, bound, round, d, hlevel, hinner, -, hfresh, -⟩ :=
    (loop_variables_are_fresh hmade 2 0).1 _ _ _ way_to_innerCount rfl ⟨_, rfl⟩
  obtain rfl : level = 7 := hlevel.trans (by decide)
  exact ⟨bound, round, hinner, hfresh⟩

/-- Counts to three over a block whose tag is broken in two. -/
def brokenCount : Node :=
  .mk (.str "repeat_basic") [.literal (.int 3)] [[.mk (.str "x\n_i0 = 0;//") [] [] {}]] {}

/-- The second line of the tag stands in the round as code that sets the counter back. -/
theorem broken_tag_sets_the_counter :
    ∃ bound round, brokenCount.actions {} {} = .ok [.count 0 bound round] ∧
      renderLines 2 (Stmt.linesAll 1 round) = "  // TODO: unsupported block 'x\n"
        ++ (Name.counter 0 ++ " = 0;//'\n") ++ "  await Entry.yield();\n" :=
  ⟨_, _, rfl, by decide +kernel⟩

end BlockScript
