-- Local variables. Every local variable that the code of a function reads, sets or
-- returns is declared at its head, each name is declared once, and no name is that
-- of a parameter. Two names are one identifier only if they differ by a newline.
import BlockScript.Proofs.DeclarationLines
import BlockScript.Proofs.LineWords
import Mathlib.Data.List.Nodup

namespace BlockScript

/-! ## Names in code -/

/-- A name of the family of local variables. -/
def isLocalName (t : Text) : Bool := Text.startsWith t "v_"

/-- The names in what a function returns. The failure of a value is a comment. -/
@[simp]
def resultNames : Except Failure Expr → List Text
  | .ok e => e.names
  | .error _ => []

/-- The names in the code of a function: in its statements and in the value that it returns. -/
def FunctionTree.names (b : FunctionTree) : List Text :=
  Stmt.namesAll b.statements ++ b.result.elim [] resultNames

/-- Every local variable among the names passes `P`. -/
def Locals (P : Text → Prop) (names : List Text) : Prop :=
  ∀ n ∈ names, isLocalName n = true → P n

section Locals

variable {P : Text → Prop}

@[simp] theorem locals_nil : Locals P [] := by simp [Locals]

@[simp] theorem locals_cons (n : Text) (names : List Text) :
    Locals P (n :: names) ↔ (isLocalName n = true → P n) ∧ Locals P names := by
  simp [Locals]

@[simp] theorem locals_append (names more : List Text) :
    Locals P (names ++ more) ↔ Locals P names ∧ Locals P more := by
  unfold Locals
  exact List.forall_mem_append

@[simp] theorem names_quoted (v : Json) : (Expr.quoted v).names = [] := by
  unfold Expr.quoted
  split <;> rfl

@[simp] theorem names_ofLiteral (v : Json) : (Expr.ofLiteral v).names = [] := by
  unfold Expr.ofLiteral
  split
  · split <;> rfl
  · rfl

/-- A name of another family is no local variable. -/
theorem not_isLocalName_of_make {c : Char} (hc : c ≠ 'v') {id : Json} {drawn : Nat} {name : Text}
    (h : Name.make [.char c] id drawn = .ok name) : isLocalName name = false := by
  have hopens : Text.opens (· = c) name = true := opens_make (by simp) h
  match name with
  | .char d :: rest =>
    have hd : d = c := by simpa [Text.opens] using hopens
    have hne : 'v' ≠ d := fun heq => hc (hd.symm.trans heq.symm)
    simp [isLocalName, Text.startsWith, Text.after?, Text.ofString, hne]

end Locals

/-! ## Values -/

/-- The names of the local variables of the nodes pass `P`. -/
def NamesPass (P : Text → Prop) (nodes : List Node) : Prop :=
  ∀ n ∈ nodes, ∀ id ∈ n.localId?, ∀ name, Name.ofLocal id = .ok name → P name

theorem NamesPass.within {P : Text → Prop} {nodes more : List Node} (h : NamesPass P more)
    (hsub : nodes ⊆ more) : NamesPass P nodes :=
  fun n hn => h n (hsub hn)

section Values

variable {P : Text → Prop}

theorem locals_namesOf {es : List Expr} (h : ∀ e ∈ es, Locals P e.names) :
    Locals P (Expr.namesOf es) := by
  induction es with
  | nil => simp
  | cons e rest ih =>
    obtain ⟨he, hrest⟩ := List.forall_mem_cons.mp h
    simp [he, ih hrest]

/-- No word of the runtime is a local variable. -/
theorem closed_locals : Expr.Closed (fun e => Locals P e.names) where
  literal v := by simp
  quoted v := by simp
  text t := by simp
  zero := by simp
  one := by simp [Expr.one]
  word hw := by
    have hother : ∀ w ∈ rootWords, isLocalName (Text.ofString w) = false := by decide
    simp [hother _ hw]
  member he _ _ := he
  call he _ harguments := by simp [he, locals_namesOf harguments]
  not he := he
  binary hleft hright := by simp [hleft, hright]

theorem NamesPass.named {nodes : List Node} (h : NamesPass P nodes) :
    NamedPass (fun e => Locals P e.names) nodes where
  paramName n hn id hid name hname := by simp [not_isLocalName_of_make (c := 'p') (by decide) hname]
  localName n hn id hid name hname := by simp [h n hn id hid name hname]
  called n hn id hid name hname arguments harguments := by
    simp +decide [Expr.method, Expr.entry, Expr.self, locals_namesOf harguments]

end Values

/-! ## Statements -/

section Statements

variable {P : Text → Prop}

theorem locals_namesAll {body : List Stmt} :
    Locals P (Stmt.namesAll body) ↔ ∀ st ∈ body, Locals P st.names := by
  induction body with
  | nil => simp
  | cons s rest ih => simp [ih]

theorem Stmt.closed_locals (lowest : Int) :
    Stmt.Closed lowest (fun e => Locals P e.names) (fun st => Locals P st.names) where
  run he _ := he
  set htarget _ _ he := by simp [htarget, he]
  raise htarget _ _ he := by simp [htarget, he]
  back := by simp
  yield := by simp +decide [yieldNow, Expr.method, Expr.entry]
  leave := by simp
  next := by simp
  choose {condition body other} hcondition hbody hother := by
    have hbody := locals_namesAll.mpr hbody
    cases other with
    | none => simp [hcondition, hbody]
    | some more => simp [hcondition, hbody, locals_namesAll.mpr (hother more rfl)]
  count {level bound body} _ hbound hbody := by
    have hcounter : isLocalName (Name.counter level) = false := rfl
    have hlimit : isLocalName (Name.limit level) = false := rfl
    simp [hcounter, hlimit, hbound, locals_namesAll.mpr hbody]
  loop hcondition hbody := by simp [hcondition, locals_namesAll.mpr hbody]

theorem NamesPass.nodes {nodes : List Node} (h : NamesPass P nodes) :
    NodesPass (fun e => Locals P e.names) (fun st => Locals P st.names) nodes where
  toNamedPass := h.named
  waits _ _ _ _ he := he
  unsupported _ _ := by simp [unsupported]
  skipped _ _ _ _ := by simp [skipped]

/-- The code of a function has the local variables of its body only. -/
theorem locals_functionTree (y : Style) {f : Function} (s : Scope)
    (h : NamesPass P (Node.walkAll f.body)) :
    GivesOnly (fun tree => Locals P tree.names) (y.functionTree f s) := by
  have hforms : FormsPass y.extensions s.level (fun e => Locals P e.names)
      (fun st => Locals P st.names) :=
    ⟨closed_locals, Stmt.closed_locals _, fun _ _ _ => locals_nil, fun _ _ _ => locals_nil⟩
  intro tree htree
  obtain ⟨hstatements, hresult, -⟩ := closed_functionTree hforms (Int.le_refl _) h.nodes tree htree
  unfold FunctionTree.names
  rw [locals_append, locals_namesAll]
  refine ⟨hstatements, ?_⟩
  cases hmade : tree.result with
  | none => simp
  | some r =>
    cases r with
    | error f => simp
    | ok e => exact hresult e hmade

end Statements

/-! ## Words -/

section Words

variable {P : Text → Prop}

/-- No word of the language or of the runtime is a local variable. -/
theorem speech_locals : Speech fun w => isLocalName w = true → P w where
  word w hw hlocal := by
    have hother : ∀ w ∈ runtimeWords, isLocalName (Text.ofString w) = false := by decide
    rw [hother w hw] at hlocal
    cases hlocal
  language w hw hlocal := by
    have hother : ∀ w ∈ languageWords, isLocalName (Text.ofString w) = false := by decide
    rw [hother w hw] at hlocal
    cases hlocal

theorem NamesPass.spoken {nodes : List Node} (h : NamesPass P nodes) :
    NodesSpoken (fun w => isLocalName w = true → P w) nodes where
  paramName _ _ _ _ name hname hlocal := by
    rw [not_isLocalName_of_make (c := 'p') (by decide) hname] at hlocal
    cases hlocal
  localName n hn id hid name hname _ := h n hn id hid name hname
  functionName _ _ _ _ name hname hlocal := by
    rw [not_isLocalName_of_make (c := 'f') (by decide) hname] at hlocal
    cases hlocal
  await _ _ _ hlocal := by cases hlocal

theorem spoken_resultLine {width : Nat} {r : Except Failure Expr}
    (hform : ∀ e, r = .ok e → e.WellFormed)
    (hwords : ∀ e, r = .ok e → e.Spoken fun w => isLocalName w = true → P w)
    (hfails : ∀ e : Failure, r = .error e → e.tag.shown.Unbroken .all) :
    (resultLine r).text.NoNewline ∧
      (resultLine r).Spoken (fun w => isLocalName w = true → P w) width := by
  cases r with
  | ok e =>
    exact ⟨by simp [resultLine, e.noNewline_render (hform e rfl)],
      spoken_return speech_locals (hform e rfl) (hwords e rfl) 1⟩
  | error f =>
    have hfront : (Text.ofString "skipped return: ").Unbroken .all := by decide
    have hcomment : (Text.ofString "skipped return: " ++ f.describe).Unbroken .all := by
      simp [hfront, unbroken_describe (hfails f rfl)]
    exact ⟨by simpa [resultLine] using hcomment.noNewline, spoken_comment hcomment 1⟩

/-- Where nothing breaks its line, the lines of a function have the local variables of its body
only. -/
theorem words_functionTree {width : Nat} {f : Function} {s : Scope}
    (h : NamesPass P (Node.walkAll f.body))
    (hline : ∀ n ∈ Node.walkAll f.body, n.OnOneLine .all) {tree : FunctionTree}
    (htree : ({ width } : Style).functionTree f s = .ok tree) :
    ∀ l ∈ tree.lines, (l.shown width).NoNewline ∧ ∃ words, lineWords? (l.shown width) = some words ∧
      ∀ w ∈ words, isLocalName w = true → P w := by
  have hloops : ∀ level, s.level ≤ level →
      (isLocalName (Name.counter level) = true → P (Name.counter level)) ∧
        (isLocalName (Name.limit level) = true → P (Name.limit level)) := fun _ _ =>
    ⟨fun hlocal => (by cases hlocal), fun hlocal => (by cases hlocal)⟩
  obtain ⟨hform, hresultForm, hfails⟩ := closed_functionTree
    (.known closed_wellFormed (Stmt.closed_wellFormed .all s.level)) (Int.le_refl _)
    (pass_wellFormed hline) tree htree
  obtain ⟨hwords, hresultWords, -⟩ := closed_functionTree (forms_spoken hloops speech_locals)
    (Int.le_refl _) (pass_spoken speech_locals h.spoken) tree htree
  have hform := Stmt.allWellFormed_iff.mpr hform
  have hlines : ∀ l ∈ tree.lines, l.text.NoNewline ∧
      l.Spoken (fun w => isLocalName w = true → P w) width := by
    refine List.forall_mem_append.mpr ⟨fun l hl => ⟨Stmt.noNewline_lines hform 1 l hl, ?_⟩, ?_⟩
    · exact Stmt.spoken_linesAll speech_locals 1 _ hform (Stmt.allSpoken_iff.mpr hwords) l hl
    · cases hresult : tree.result with
      | none => simp
      | some r =>
        refine List.forall_mem_singleton.mpr (spoken_resultLine ?_ ?_ ?_)
        · rintro e rfl
          exact hresultForm e hresult
        · rintro e rfl
          exact hresultWords e hresult
        · rintro e rfl
          exact unbroken_of_names hline (hfails e hresult)
  intro l hl
  obtain ⟨hnewline, hspoken⟩ := hlines l hl
  exact ⟨Line.noNewline_shown hnewline width,
    hspoken.pass speech_locals fun hlocal => by cases hlocal⟩

end Words

/-! ## Declared names -/

theorem nodup_firsts (seen ts : List Text) :
    (firsts seen ts).Nodup ∧ ∀ t ∈ firsts seen ts, t ∉ seen := by
  induction ts generalizing seen with
  | nil => simp [firsts]
  | cons t rest ih =>
    rw [firsts]
    by_cases ht : t ∈ seen
    · rw [if_pos ht]
      exact ih seen
    · obtain ⟨hnodup, hnew⟩ := ih (t :: seen)
      rw [if_neg ht]
      refine ⟨List.nodup_cons.mpr ⟨fun hmem => hnew t hmem List.mem_cons_self, hnodup⟩, ?_⟩
      intro u hu
      rcases List.mem_cons.mp hu with rfl | hu
      · exact ht
      · exact fun hmem => hnew u hu (List.mem_cons_of_mem t hmem)

theorem mem_firsts {seen ts : List Text} {t : Text} (ht : t ∈ ts) (hnew : t ∉ seen) :
    t ∈ firsts seen ts := by
  induction ts generalizing seen with
  | nil => cases ht
  | cons u rest ih =>
    rw [firsts]
    by_cases heq : t = u
    · subst heq
      rw [if_neg hnew]
      exact List.mem_cons_self
    · have hrest : t ∈ rest := (List.mem_cons.mp ht).resolve_left heq
      split
      · exact ih hrest hnew
      · refine List.mem_cons_of_mem _ (ih hrest ?_)
        simp [heq, hnew]

theorem exists_of_mem_left {α β : Type} {R : α → β → Prop} {xs : List α} {ys : List β}
    (h : List.Forall₂ R xs ys) {x : α} (hx : x ∈ xs) : ∃ y ∈ ys, R x y := by
  induction h with
  | nil => cases hx
  | cons hxy _ ih =>
    rcases List.mem_cons.mp hx with rfl | hx
    · exact ⟨_, List.mem_cons_self, hxy⟩
    · obtain ⟨y, hy, hxy⟩ := ih hx
      exact ⟨y, List.mem_cons_of_mem _ hy, hxy⟩

/-- The names of a body are those of its variables, each once. -/
theorem mem_localNames {body : List Node} {names : List Text} (h : localNames body = .ok names) :
    NamesPass (· ∈ names) (Node.walkAll body) ∧ names.Nodup ∧
      ∀ name ∈ names, ∃ id, Name.ofLocal id = .ok name := by
  obtain ⟨found, hfound, h⟩ := ok_of_bind_ok h
  cases h
  refine ⟨?_, (nodup_firsts _ _).1, ?_⟩
  · intro n hn id hid name hname
    obtain ⟨made, hmade, heq⟩ := exists_of_mem_left (forall₂_of_mapM_ok hfound) hn
    have hlocal : n.localName? = .ok (some name) := by
      unfold Node.localName?
      rw [Option.mem_def.mp hid]
      simp only [written, hname]
      rfl
    rw [hlocal] at heq
    cases heq
    exact mem_firsts (List.mem_filterMap.mpr ⟨_, hmade, rfl⟩) (by simp)
  · intro name hname
    obtain ⟨_, hname, rfl⟩ := List.mem_filterMap.mp (mem_of_firsts hname)
    obtain ⟨n, -, hname⟩ := mem_of_mapM_ok hfound _ hname
    unfold Node.localName? at hname
    split at hname
    · obtain ⟨made, hmade, hname⟩ := ok_of_bind_ok hname
      cases hname
      exact ⟨_, eq_ok_of_written hmade⟩
    · obtain ⟨-, -, hname⟩ := ok_of_bind_ok hname
      cases hname

theorem exists_ofParam_of_paramNames {n : Node} {names : List Text} (h : n.paramNames = .ok names)
    {name : Text} (hname : name ∈ names) : ∃ id drawn, Name.ofParam id drawn = .ok name := by
  obtain ⟨p, -, hname⟩ := mem_of_mapM_ok h name hname
  exact ⟨_, _, eq_ok_of_written hname⟩

theorem dropFinalNewline_of_isWord {w : Text} (h : IsWord w) : w.dropFinalNewline = w :=
  dropFinalNewline_eq fun hmem => Name.not_isWord_of_newline hmem h

/-- Without the newline that a clean id may leave at its end, every name is an identifier. -/
theorem isWord_dropFinalNewline {family : Text} (hfamily : IsWord family) {id : Json} {drawn : Nat}
    {name : Text} (h : Name.make family id drawn = .ok name) : IsWord name.dropFinalNewline := by
  have hword : ∀ w, IsWord w → IsWord (Text.dropFinalNewline w) := by
    intro w hw
    rwa [dropFinalNewline_of_isWord hw]
  unfold Name.make at h
  split at h
  · rename_i t
    split at h
    · cases h
      exact hword _ (Name.isWord_anonymous hfamily drawn)
    · split at h
      · rename_i hclean
        cases h
        obtain ⟨body, -, hwords, rfl | rfl⟩ := Name.isClean_iff.mp hclean
        · exact hword _ (Name.isWord_append hfamily hwords)
        · rw [← List.append_assoc, dropFinalNewline_append]
          exact Name.isWord_append hfamily hwords
      · obtain ⟨stem, hstem, h⟩ := ok_of_bind_ok h
        cases h
        exact hword _ (Name.isWord_append hfamily (Name.mem_digested (fun _ h => h) hstem))
  · cases h
    exact hword _ (Name.isWord_anonymous hfamily drawn)

theorem opens_dropFinalNewline {p : Char → Bool} (hp : p '\n' = false) {t : Text}
    (h : t.opens p = true) : t.dropFinalNewline.opens p = true := by
  rcases eq_dropFinalNewline t with heq | heq
  · rwa [← heq]
  · rw [heq] at h
    cases hdrop : t.dropFinalNewline with
    | nil =>
      rw [hdrop] at h
      exact absurd (hp.symm.trans h) (by decide)
    | cons g rest =>
      rw [hdrop] at h
      cases g <;> exact h

/-- Names of two families are not one identifier. -/
theorem ne_of_families {c d : Char} (hcd : (c == d) = false) (hc : ('\n' == c) = false)
    (hd : ('\n' == d) = false) {s t : Text} (hs : s.opens (· == c) = true)
    (ht : t.opens (· == d) = true) : s.dropFinalNewline ≠ t.dropFinalNewline := by
  intro heq
  have hs := opens_dropFinalNewline hc hs
  have ht := opens_dropFinalNewline hd ht
  rw [heq] at hs
  unfold Text.opens at hs ht
  split at hs
  · simp_all
  · cases hs

/-- Names come to different identifiers unless one is another with a newline behind it. -/
theorem nodup_identifiers_iff {names : List Text} (h : names.Nodup)
    (hwords : ∀ n ∈ names, IsWord n.dropFinalNewline) :
    (names.map Text.dropFinalNewline).Nodup ↔ ∀ n ∈ names, n ++ "\n" ∉ names := by
  rw [List.nodup_map_iff_inj_on h]
  constructor
  · intro hinj n hn hmem
    have hword : IsWord n := by
      have hlong := hwords _ hmem
      rwa [dropFinalNewline_append] at hlong
    have heq := hinj (n ++ "\n") hmem n hn
    rw [dropFinalNewline_append, dropFinalNewline_of_isWord hword] at heq
    have hlength := congrArg List.length (heq rfl)
    simp [Text.ofString] at hlength
  · intro hnone m hm n hn heq
    rcases eq_dropFinalNewline m with hm' | hm' <;> rcases eq_dropFinalNewline n with hn' | hn'
    · rw [hm', hn', heq]
    · rw [heq] at hm'
      rw [← hm'] at hn'
      exact absurd (hn' ▸ hn) (hnone m hm)
    · rw [heq, ← hn'] at hm'
      exact absurd (hm' ▸ hm) (hnone n hn)
    · rw [hm', hn', heq]

theorem ofBlock_of_build {draws : Draws} {script object functionId : Json} {p : Program}
    {f : Function} (hbuild : Program.build draws script object functionId = .ok p)
    (hf : .function f ∈ p) :
    ∃ d tag fields, Function.ofBlock object functionId d tag fields = .ok f := by
  obtain ⟨s, -, hdecl⟩ := stack_of_build hbuild hf
  rcases ofStack_cases isStartTag object functionId s.1 s.2 with
    h | ⟨fields, rest, tag, -, -, h | h⟩ <;> rw [h] at hdecl
  · cases hdecl
  · cases hdecl
  · obtain ⟨f', hf', hdecl⟩ := ok_of_bind_ok hdecl
    cases hdecl
    exact ⟨s.1.first, tag, fields, hf'⟩

/-- The local variables of every function that a script builds. Each name is declared once and is
an identifier, with at most a newline behind it. No identifier is that of a parameter, and two are
the same only if the two names differ by that newline. Every local variable that stands in the code
below the declarations, in a statement, in an expression or in what is returned, is declared. Where
no tag and no id breaks its line, so is every local variable among the words of a line there. -/
theorem locals_are_declared {draws : Draws} {script object functionId : Json} {p : Program}
    (hbuild : Program.build draws script object functionId = .ok p) {f : Function}
    (hf : .function f ∈ p) :
    f.locals.Nodup ∧
    (∀ n ∈ f.locals, IsWord n.dropFinalNewline) ∧
    (∀ n ∈ f.locals, ∀ q ∈ Text.ofString "self" :: f.params,
      n.dropFinalNewline ≠ q.dropFinalNewline) ∧
    ((f.locals.map Text.dropFinalNewline).Nodup ↔ ∀ n ∈ f.locals, n ++ "\n" ∉ f.locals) ∧
    ∀ (width : Nat) (owner : Json) (t : Text), ({ width } : Style).function owner f = .ok t →
      ∃ name tree, ({ width } : Style).functionTree f { object := owner } = .ok tree ∧
        t = renderLines width (⟨0, "Entry.func." ++ name ++ " = async function ("
            ++ Text.joined ", " ("self" :: f.params) ++ ") \x7b"⟩
          :: f.locals.map (fun n => ⟨1, "let " ++ n ++ " = 0;"⟩) ++ tree.lines ++ [⟨0, "\x7d;"⟩]) ∧
        (∀ n ∈ tree.names, isLocalName n = true → n ∈ f.locals) ∧
        ((∀ n ∈ Node.walkAll f.body, n.OnOneLine .all) →
          ∀ l ∈ tree.lines, (l.shown width).NoNewline ∧
            ∃ words, lineWords? (l.shown width) = some words ∧
              ∀ w ∈ words, isLocalName w = true → w ∈ f.locals) := by
  obtain ⟨_, tag, fields, hblock⟩ := ofBlock_of_build hbuild hf
  obtain ⟨params, hparams, hblock⟩ := ok_of_bind_ok hblock
  obtain ⟨names, hnames, hblock⟩ := ok_of_bind_ok hblock
  cases hblock
  obtain ⟨hpass, hnodup, hlocal⟩ := mem_localNames hnames
  have hwords : ∀ n ∈ names, IsWord n.dropFinalNewline := by
    intro n hn
    obtain ⟨id, hid⟩ := hlocal n hn
    exact isWord_dropFinalNewline (by decide) hid
  refine ⟨hnodup, hwords, ?_, nodup_identifiers_iff hnodup hwords, ?_⟩
  · intro n hn q hq
    obtain ⟨id, hid⟩ := hlocal n hn
    have hopens : Text.opens (· == 'v') n = true := opens_make rfl hid
    rcases List.mem_cons.mp hq with rfl | hq
    · exact ne_of_families rfl rfl rfl hopens rfl (d := 's')
    · obtain ⟨id', _, hid'⟩ := exists_ofParam_of_paramNames hparams hq
      exact ne_of_families rfl rfl rfl hopens (opens_make rfl hid') (d := 'p')
  · intro width owner t ht
    rw [function_eq] at ht
    cases hlines : ({ width } : Style).functionLines owner _ with
    | error e =>
      rw [hlines] at ht
      cases ht
    | ok lines =>
      rw [hlines] at ht
      cases ht
      obtain ⟨name, hname, hlines⟩ := ok_of_bind_ok hlines
      obtain ⟨tree, htree, hlines⟩ := ok_of_bind_ok hlines
      cases hlines
      exact ⟨name, tree, htree, rfl, locals_functionTree _ _ hpass tree htree,
        fun hline => words_functionTree hpass hline htree⟩

/-- A function that sets one variable to the value of another and returns it. -/
def functionScript (first second : Text) : Json :=
  let block (tag : Text) (params : List Json) (branches : List Json) : Json :=
    .obj [("type", .str tag), ("id", .str "f"), ("params", .arr params),
      ("statements", .arr branches)]
  .arr [.arr [block "function_create_value" [] [.arr [
    block "set_func_variable" [.str first, block "get_func_variable" [.str second] []] []]]]]

theorem read_and_set_variables_are_declared :
    ∃ f tree t, Program.build (.all 0) (functionScript "a" "b") .null .null = .ok [.function f] ∧
      f.locals = (["v_a", "v_b"] : List Text) ∧ (f.locals.map Text.dropFinalNewline).Nodup ∧
      ({} : Style).function .null f = .ok t ∧ ({} : Style).functionTree f {} = .ok tree ∧
      tree.names = (["v_a", "v_b", "v_a"] : List Text) ∧ (∀ n ∈ tree.names, n ∈ f.locals) ∧
      (∀ n ∈ Node.walkAll f.body, n.OnOneLine .all) ∧
      ∀ l ∈ tree.lines, ∃ words, lineWords? (l.shown 2) = some words ∧
        ∀ w ∈ words, isLocalName w = true → w ∈ f.locals := by
  obtain ⟨f, tree, t, hbuild, hlocals, ht, htree, hnames, hline⟩ : ∃ f tree t,
      Program.build (.all 0) (functionScript "a" "b") .null .null = .ok [.function f] ∧
      f.locals = (["v_a", "v_b"] : List Text) ∧ ({} : Style).function .null f = .ok t ∧
      ({} : Style).functionTree f {} = .ok tree ∧
      tree.names = (["v_a", "v_b", "v_a"] : List Text) ∧
      ∀ n ∈ Node.walkAll f.body, n.OnOneLine .all := by
    refine ⟨_, _, _, rfl, rfl, rfl, rfl, rfl, List.forall_mem_cons.mpr
      ⟨⟨by decide, nofun, nofun, ?_⟩, List.forall_mem_singleton.mpr ⟨by decide, nofun, nofun, ?_⟩⟩⟩
    all_goals
      rintro - id ⟨⟩
      decide
  obtain ⟨-, -, -, hdistinct, hwritten⟩ :=
    locals_are_declared hbuild (List.mem_singleton_self (Declaration.function f))
  obtain ⟨_, tree', htree', -, hdeclared, hwords⟩ := hwritten 2 .null t ht
  cases htree.symm.trans htree'
  refine ⟨f, tree, t, hbuild, hlocals, hdistinct.mpr ?_, ht, htree, hnames, ?_, hline,
    fun l hl => (hwords hline l hl).2⟩
  · rw [hlocals]
    decide
  · intro n hn
    refine hdeclared n hn ?_
    rw [hnames] at hn
    revert n
    decide

/-- An id and the same id with a newline behind it are two names and one identifier, which the
function then declares twice. -/
theorem one_identifier_is_declared_twice :
    ∃ f, Program.build (.all 0) (functionScript "a" "a\n") .null .null = .ok [.function f] ∧
      ({} : Style).function .null f = .ok ("Entry.func.f_f = async function (self) \x7b\n"
        ++ "  let v_a = 0;\n  let v_a\n = 0;\n  v_a = v_a\n;\n  return v_a;\n\x7d;\n") ∧
      f.locals.map Text.dropFinalNewline = (["v_a", "v_a"] : List Text) :=
  ⟨_, rfl, rfl, rfl⟩

end BlockScript
