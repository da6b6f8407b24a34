-- What a function returns. A function that has a value returns it in its last line,
-- and no other line of its code returns one. The value is that of the last block, or
-- else the variable that an assignment in the last block sets.
import BlockScript.Proofs.Conversion
import BlockScript.Proofs.QuietLines

namespace BlockScript

/-! ## Assignments from the end -/

namespace Node

mutual

/-- The blocks at and below a node from right to left: the node before its branches, the last
branch first, and the last block of a branch first. -/
def backwards : Node → List Node
  | .mk tag arguments branches labels =>
    .mk tag arguments branches labels :: backwardsInBranches branches

def backwardsInBody : List Node → List Node
  | [] => []
  | n :: rest => backwardsInBody rest ++ backwards n

def backwardsInBranches : List (List Node) → List Node
  | [] => []
  | branch :: rest => backwardsInBranches rest ++ backwardsInBody branch

end

mutual

theorem last_eq_find (p : Node → Bool) : (n : Node) → n.last? p = n.backwards.find? p
  | .mk tag arguments branches labels => by
    rw [last?, backwards, List.find?_cons, lastInBranches_eq_find p branches]
    cases p (.mk tag arguments branches labels) <;> rfl

theorem lastInBody_eq_find (p : Node → Bool) :
    (body : List Node) → lastInBody? p body = (backwardsInBody body).find? p
  | [] => rfl
  | n :: rest => by
    rw [lastInBody?, backwardsInBody, List.find?_append, lastInBody_eq_find p rest,
      last_eq_find p n]

theorem lastInBranches_eq_find (p : Node → Bool) :
    (branches : List (List Node)) →
      lastInBranches? p branches = (backwardsInBranches branches).find? p
  | [] => rfl
  | branch :: rest => by
    rw [lastInBranches?, backwardsInBranches, List.find?_append, lastInBranches_eq_find p rest,
      lastInBody_eq_find p branch]

end

/-- The assignment says which variable it sets: one of its function by an id that makes a name,
one of the project by any value. -/
def NamesVariable (n : Node) : Prop :=
  ∃ id, n.argument? 0 = some (.literal id) ∧
    (n.tag = .str "set_func_variable" → Name.isStable id = true)

/-- The variable that an assignment sets. -/
inductive Sets (n : Node) : Expr → Prop
  | inFunction {id : Json} {name : Text} : n.tag = .str "set_func_variable" →
      n.argument? 0 = some (.literal id) → Name.isStable id = true →
      Name.ofLocal id = .ok name → Sets n (.name name)
  | inProject {id : Json} : n.tag = .str "set_variable" ∨ n.tag = .str "change_variable" →
      n.argument? 0 = some (.literal id) →
      Sets n (Expr.projectVariables.method "get" [.quoted id])

end Node

section Assigned

variable {n : Node}

theorem literal_cases (n : Node) :
    n.argument? 0 = some (.literal (n.literal 0)) ∨
      n.literal 0 = .null ∧ ∀ id, n.argument? 0 ≠ some (.literal id) := by
  unfold Node.literal
  cases n.argument? 0 with
  | none => exact .inr ⟨rfl, by simp⟩
  | some a =>
    cases a with
    | literal id => exact .inl rfl
    | block m => exact .inr ⟨rfl, by simp⟩

theorem action_of_assigns (h : n.assigns = true) : n.action? = some .setFuncVariable ∨
    n.action? = some .setVariable ∨ n.action? = some .changeVariable := by
  unfold Node.assigns at h
  cases hkind : n.action? with
  | none => simp [hkind] at h
  | some kind => cases kind <;> simp [hkind, ActionKind.assigns] at h ⊢

theorem tag_ne_of_local (h : n.tag = .str "set_func_variable") :
    ¬ (n.tag = .str "set_variable" ∨ n.tag = .str "change_variable") := by
  rw [h]
  rintro (h | h) <;> exact absurd (Json.str.inj h) (by decide)

theorem sets_of_local (haction : n.action? = some .setFuncVariable) {found : Option Expr}
    (h : n.assigned? = .ok found) :
    (∀ e, found = some e ↔ n.Sets e) ∧ (found = none ↔ ¬ n.NamesVariable) := by
  have htag : n.tag = .str "set_func_variable" := Node.tag_of_action haction
  unfold Node.assigned? at h
  simp only [haction, if_true] at h
  split at h
  · rename_i hstable
    obtain ⟨name, hname, h⟩ := ok_of_bind_ok h
    cases h
    have hname := eq_ok_of_written hname
    have hliteral : n.argument? 0 = some (.literal (n.literal 0)) := by
      refine (literal_cases n).resolve_right fun hnull => ?_
      rw [hnull.1] at hstable
      cases hstable
    refine ⟨fun e => ⟨?_, ?_⟩, ?_⟩
    · rintro ⟨⟩
      exact .inFunction htag hliteral hstable hname
    · rintro (⟨-, hid, -, hname'⟩ | ⟨htag', -⟩)
      · cases hliteral.symm.trans hid
        cases hname.symm.trans hname'
        rfl
      · exact absurd htag' (tag_ne_of_local htag)
    · exact iff_of_false (by simp) (not_not_intro ⟨_, hliteral, fun _ => hstable⟩)
  · rename_i hunstable
    cases h
    have hnone : ∀ id, n.argument? 0 = some (.literal id) → Name.isStable id ≠ true := by
      intro id hid hstable
      have hliteral : n.literal 0 = id := by rw [Node.literal, hid]; rfl
      exact hunstable (hliteral ▸ hstable)
    refine ⟨fun e => iff_of_false (by simp) ?_, iff_of_true rfl ?_⟩
    · rintro (⟨-, hid, hstable, -⟩ | ⟨htag', -⟩)
      · exact hnone _ hid hstable
      · exact tag_ne_of_local htag htag'
    · rintro ⟨id, hid, hstable⟩
      exact hnone id hid (hstable htag)

theorem sets_of_shared (haction : n.action? = some .setVariable ∨ n.action? = some .changeVariable)
    (hnull : n.argument? 0 ≠ some (.literal .null)) {found : Option Expr}
    (h : n.assigned? = .ok found) :
    (∀ e, found = some e ↔ n.Sets e) ∧ (found = none ↔ ¬ n.NamesVariable) := by
  have htag : n.tag = .str "set_variable" ∨ n.tag = .str "change_variable" :=
    haction.imp Node.tag_of_action Node.tag_of_action
  have hlocal : n.action? ≠ some .setFuncVariable := by
    rcases haction with haction | haction <;> simp [haction]
  have hother : n.tag ≠ .str "set_func_variable" := fun h => tag_ne_of_local h htag
  unfold Node.assigned? at h
  simp only [hlocal, if_false] at h
  rcases literal_cases n with hliteral | ⟨hliteral, hnone⟩
  · have hne : n.literal 0 ≠ .null := fun heq => hnull (heq ▸ hliteral)
    have hfound : found = some (Expr.projectVariables.method "get" [.quoted (n.literal 0)]) := by
      split at h
      · exact absurd ‹_› hne
      · exact (Except.ok.inj h).symm
    subst hfound
    refine ⟨fun e => ⟨?_, ?_⟩, ?_⟩
    · rintro ⟨⟩
      exact .inProject htag hliteral
    · rintro (⟨htag', -⟩ | ⟨-, hid⟩)
      · exact absurd htag' hother
      · cases hliteral.symm.trans hid
        rfl
    · exact iff_of_false (by simp) (not_not_intro ⟨_, hliteral, (absurd · hother)⟩)
  · rw [hliteral] at h
    cases h
    refine ⟨fun e => iff_of_false (by simp) ?_, iff_of_true rfl ?_⟩
    · rintro (⟨-, hid, -⟩ | ⟨-, hid⟩) <;> exact hnone _ hid
    · rintro ⟨id, hid, -⟩
      exact hnone id hid

/-- The search for an assignment goes from right to left. -/
theorem found_of_lastAssignment {body : List Node} {found : Option Node}
    (h : lastAssignment? body = .ok found) :
    found = (Node.backwardsInBody body).find? Node.assigns := by
  unfold lastAssignment? at h
  rw [Node.lastInBody_eq_find] at h
  split at h
  · rename_i hnone
    cases h
    refine (List.find?_eq_none.mpr fun n hn => ?_).symm
    have hn := List.find?_eq_none.mp hnone n hn
    simp only [Bool.or_eq_true, not_or] at hn
    exact hn.1
  · rename_i n hn
    obtain ⟨_, hkey, h⟩ := ok_of_bind_ok h
    cases h
    have hkey : n.tag.isKey = true := by
      unfold Json.demandKey at hkey
      split at hkey
      · assumption
      · cases hkey
    -- a tag that cannot be looked up would have stopped the search before
    obtain ⟨hpass, front, back, heq, hfront⟩ := List.find?_eq_some_iff_append.mp hn
    have hassigns : n.assigns = true := by simpa [hkey] using hpass
    refine (List.find?_eq_some_iff_append.mpr ⟨hassigns, front, back, heq, fun m hm => ?_⟩).symm
    have hm := hfront m hm
    simp only [Bool.not_or, Bool.and_eq_true] at hm
    exact hm.1

/-- The variable that a body leaves its result in is the one set by the first assignment that the
search meets. -/
theorem sets_of_returnedVariable {last : Node}
    (hnull : ∀ n ∈ last.walk, n.argument? 0 ≠ some (.literal .null)) {found : Option Expr}
    (h : returnedVariable last = .ok found) :
    (∀ e, found = some e ↔ ∃ n, last.backwards.find? Node.assigns = some n ∧ n.Sets e) ∧
      (found = none ↔ ∀ n, last.backwards.find? Node.assigns = some n → ¬ n.NamesVariable) := by
  obtain ⟨assignment, hassignment, h⟩ := ok_of_bind_ok h
  have hfind : assignment = last.backwards.find? Node.assigns :=
    found_of_lastAssignment hassignment
  rw [← hfind]
  cases assignment with
  | none =>
    cases h
    simp
  | some n =>
    have hmem := mem_of_lastAssignment hassignment
    rw [Node.walkAll_eq, List.flatMap_singleton] at hmem
    have hassigns : n.assigns = true := List.find?_some hfind.symm
    have hfound : (∀ e, found = some e ↔ n.Sets e) ∧ (found = none ↔ ¬ n.NamesVariable) := by
      rcases action_of_assigns hassigns with haction | haction
      · exact sets_of_local haction h
      · exact sets_of_shared haction (hnull n hmem) h
    simpa using hfound

end Assigned

/-! ## Functions -/

/-- The block has a value and is no action. -/
def Node.IsResult (n : Node) : Prop := n.isValue {} = .ok true ∧ n.isAction {} = .ok false

/-- What the code of a function returns for an owner. That is nothing, the value of the last block,
or else the variable that the last block sets last. -/
structure Function.Gives (f : Function) (owner : Json) (result : Option Expr) : Prop where
  nothing : f.returnsValue = false ∨ f.body = [] → result = none
  value : ∀ last, f.returnsValue = true → f.body.getLast? = some last → last.IsResult →
    (∀ e, result = some e ↔ last.value {} owner = .ok e) ∧
      (result = none ↔ ∃ failure, last.value {} owner = .error (.failure failure))
  assigned : ∀ last, f.returnsValue = true → f.body.getLast? = some last → ¬ last.IsResult →
    (∀ e, result = some e ↔ ∃ n, last.backwards.find? Node.assigns = some n ∧ n.Sets e) ∧
      (result = none ↔ ∀ n, last.backwards.find? Node.assigns = some n → ¬ n.NamesVariable)

theorem commentsPass_of_noNewline {nodes : List Node} (h : ∀ n ∈ nodes, n.tag.shown.NoNewline) :
    CommentsPass Text.NoNewline nodes := by
  rintro n hn t (ht | ⟨f, ⟨m, hm, htag⟩, ht⟩)
  · cases ht
    exact (newline_mem_unsupported n.tag).not.mpr (h n hn)
  · cases ht
    refine (newline_mem_skipped n.tag f).not.mpr (not_or.mpr ⟨h n hn, ?_⟩)
    rw [← htag]
    exact h m hm

/-- No parameter of a block that was read is null. -/
theorem argument_ne_null {object script : Json} {draws : Draws} {n : Node}
    (h : n ∈ scriptNodes object draws script) : n.argument? 0 ≠ some (.literal .null) := by
  intro hnull
  obtain ⟨_, _, -, -, d, fields, tag, -, -, rfl⟩ := made_of_mem_scriptNodes h
  have hmem : .literal .null ∈ (nodeOf object d tag fields).arguments := List.mem_of_getElem? hnull
  obtain ⟨below, hbelow⟩ := arguments_nodeOf
  rw [hbelow] at hmem
  obtain ⟨v, -, hv⟩ := exists_of_mem_left (arguments_forall₂ object below _).flip hmem
  cases hv with
  | literal hne => exact hne rfl

theorem over_of_sets {n : Node} {e : Expr} (h : n.Sets e) : e.Over IsName := by
  cases h with
  | inFunction _ _ _ hname => exact vocabulary_isName.localName _ _ hname
  | inProject =>
    simp [(closed_over vocabulary_isName).projectVariables,
      vocabulary_isName.word "get" (by decide)]

/-- The statements of a function return no value, so what it returns is decided by its blocks. -/
theorem functionTree_cases {width : Nat} {f : Function} {s : Scope} {tree : FunctionTree}
    (hcomments : CommentsPass Text.NoNewline (Node.walkAll f.body))
    (h : ({ width } : Style).functionTree f s = .ok tree) :
    Stmt.AllOver IsName Text.NoNewline tree.statements ∧
      ((f.returnsValue = false ∨ f.body = []) ∧ tree.result = none ∨
        ∃ last, f.returnsValue = true ∧ f.body.getLast? = some last ∧
          (last.IsResult ∧
              (∃ r, resultOf (last.value {} s.object) = .ok r ∧ tree.result = some r) ∨
            ¬ last.IsResult ∧
              ∃ found, returnedVariable last = .ok found ∧ tree.result = found.map .ok)) := by
  have hover := over_actionsAll vocabulary_isName hcomments s
  unfold Style.functionTree at h
  split at h
  · rename_i last hvalue hlast
    obtain ⟨hasValue, hhas, h⟩ := ok_of_bind_ok h
    obtain ⟨isAction, hacts, h⟩ := ok_of_bind_ok h
    have hresult : last.IsResult ↔ (hasValue && !isAction) = true := by
      unfold Node.IsResult
      rw [hhas, hacts]
      simp
    split at h
    · rename_i hreturn
      obtain ⟨statements, hstatements, h⟩ := ok_of_bind_ok h
      obtain ⟨r, hr, h⟩ := ok_of_bind_ok h
      cases h
      have hfront := hcomments.within (Node.walkAll_mono (List.dropLast_subset f.body))
      exact ⟨over_actionsAll vocabulary_isName hfront s _ hstatements,
        .inr ⟨last, hvalue, hlast, .inl ⟨hresult.mpr hreturn, r, hr, rfl⟩⟩⟩
    · rename_i hreturn
      obtain ⟨statements, hstatements, h⟩ := ok_of_bind_ok h
      have hquiet := Stmt.quiet_linesAll 1 statements (hover _ hstatements)
      rw [returnsValue_quiet hquiet width] at h
      obtain ⟨found, hfound, h⟩ := ok_of_bind_ok h
      cases h
      exact ⟨hover _ hstatements,
        .inr ⟨last, hvalue, hlast, .inr ⟨mt hresult.mp hreturn, found, hfound, rfl⟩⟩⟩
  · rename_i hneither
    obtain ⟨statements, hstatements, h⟩ := ok_of_bind_ok h
    cases h
    refine ⟨hover _ hstatements, .inl ⟨?_, rfl⟩⟩
    by_cases hvalue : f.returnsValue = true
    · refine .inr (List.getLast?_eq_none_iff.mp ?_)
      exact Option.eq_none_iff_forall_ne_some.mpr fun last hlast => hneither last hvalue hlast
    · exact .inl ((Bool.not_eq_true _).mp hvalue)

/-- The value that the code of a function returns. -/
def FunctionTree.returned? (tree : FunctionTree) : Option Expr := tree.result.bind Except.toOption

theorem over_of_gives {f : Function} {owner : Json} {e : Expr} (h : f.Gives owner (some e)) :
    e.Over IsName := by
  have hsome : ¬ (f.returnsValue = false ∨ f.body = []) := fun hnothing => by
    cases h.nothing hnothing
  obtain ⟨hvalue, hbody⟩ := not_or.mp hsome
  have hvalue := (Bool.not_eq_false _).mp hvalue
  have hlast := List.getLast?_eq_some_getLast hbody
  by_cases hblock : (f.body.getLast hbody).IsResult
  · have hmade := ((h.value _ hvalue hlast hblock).1 e).mp rfl
    exact over_value vocabulary_isName owner _ e hmade
  · obtain ⟨n, -, hsets⟩ := ((h.assigned _ hvalue hlast hblock).1 e).mp rfl
    exact over_of_sets hsets

section Tree

variable {width : Nat} {f : Function} {s : Scope} {tree : FunctionTree}
  (htags : ∀ n ∈ Node.walkAll f.body, n.tag.shown.NoNewline)
  (h : ({ width } : Style).functionTree f s = .ok tree)

include htags h

/-- The lines of the body before the one that returns a value are quiet. -/
theorem lines_returned : ∃ front, (∀ l ∈ front, l.text.Quiet) ∧
    tree.lines = front ++ (tree.returned?.map fun e => resultLine (.ok e)).toList := by
  obtain ⟨hstatements, hcases⟩ := functionTree_cases (commentsPass_of_noNewline htags) h
  have hquiet := Stmt.quiet_linesAll 1 tree.statements hstatements
  unfold FunctionTree.lines FunctionTree.returned?
  rcases hcases with ⟨-, hresult⟩ |
    ⟨last, -, hlast, ⟨-, r, hr, hresult⟩ | ⟨-, found, -, hresult⟩⟩ <;> rw [hresult]
  · exact ⟨_, hquiet, rfl⟩
  · cases r with
    | ok e => exact ⟨_, hquiet, rfl⟩
    | error failure =>
      have hfailed : last.value {} s.object = .error (.failure failure) := by
        unfold resultOf at hr
        split at hr <;> cases hr
        assumption
      obtain ⟨m, hm, htag⟩ := failsOnly_value {} s.object last _ hfailed
      have hm := Node.walk_subset_walkAll (List.mem_of_getLast? hlast)
        (Node.operands_subset_walk last hm)
      have hdescribe : failure.describe.NoNewline :=
        (newline_mem_describe failure).not.mpr (htag ▸ htags m hm)
      have hskipped : Text.Quiet ("// skipped return: " ++ failure.describe) :=
        quiet_fixed rfl (by simpa using hdescribe)
      exact ⟨_, List.forall_mem_append.mpr ⟨hquiet, List.forall_mem_singleton.mpr hskipped⟩,
        (List.append_nil _).symm⟩
  · cases found with
    | none => exact ⟨_, hquiet, rfl⟩
    | some e => exact ⟨_, hquiet, rfl⟩

theorem gives_returned
    (hnull : ∀ n ∈ Node.walkAll f.body, n.argument? 0 ≠ some (.literal .null)) :
    f.Gives s.object tree.returned? := by
  have hapart : ∀ last, f.returnsValue = true → f.body.getLast? = some last →
      ¬ (f.returnsValue = false ∨ f.body = []) := by
    rintro last hvalue hlast (hplain | hempty)
    · rw [hplain] at hvalue
      cases hvalue
    · rw [hempty] at hlast
      cases hlast
  unfold FunctionTree.returned?
  obtain ⟨-, ⟨hnothing, hresult⟩ | ⟨last, hvalue, hlast, hcases⟩⟩ :=
    functionTree_cases (commentsPass_of_noNewline htags) h
  · rw [hresult]
    exact ⟨fun _ => rfl, fun last hvalue hlast => absurd hnothing (hapart last hvalue hlast),
      fun last hvalue hlast => absurd hnothing (hapart last hvalue hlast)⟩
  · have hsome := hapart last hvalue hlast
    rcases hcases with ⟨hblock, r, hr, hresult⟩ | ⟨hblock, found, hfound, hresult⟩ <;> rw [hresult]
    · refine ⟨(absurd · hsome), ?_, ?_⟩
      · rintro _ - hlast' -
        cases hlast.symm.trans hlast'
        unfold resultOf at hr
        split at hr <;> cases hr <;> simp [*, Except.toOption]
      · rintro _ - hlast' hother
        cases hlast.symm.trans hlast'
        exact absurd hblock hother
    · refine ⟨(absurd · hsome), ?_, ?_⟩
      · rintro _ - hlast' hother
        cases hlast.symm.trans hlast'
        exact absurd hother hblock
      · rintro _ - hlast' -
        cases hlast.symm.trans hlast'
        have hwalk := Node.walk_subset_walkAll (List.mem_of_getLast? hlast)
        have hsets := sets_of_returnedVariable (fun n hn => hnull n (hwalk hn)) hfound
        cases found <;> exact hsets

end Tree

/-- The line that returns an expression. -/
def returnLine (width : Nat) (e : Expr) : Text := (resultLine (.ok e)).render width

/-- The head of a function's code, and the declarations of its local variables. -/
def Function.headLines (f : Function) (name : Text) : List Line :=
  ⟨0, "Entry.func." ++ name ++ " = async function (" ++ Text.joined ", " ("self" :: f.params)
    ++ ") \x7b"⟩ :: f.locals.map fun n => ⟨1, "let " ++ n ++ " = 0;"⟩

theorem lines_of_function {width : Nat} {owner : Json} {f : Function} {t : Text}
    (h : ({ width } : Style).function owner f = .ok t) :
    ∃ name tree, Name.ofFunction f.id f.drawn = .ok name ∧
      ({ width } : Style).functionTree f { object := owner } = .ok tree ∧
      t = renderLines width (f.headLines name ++ tree.lines ++ [⟨0, "\x7d;"⟩]) := by
  rw [function_eq] at h
  cases hlines : ({ width } : Style).functionLines owner f with
  | error e =>
    rw [hlines] at h
    cases h
  | ok lines =>
    rw [hlines] at h
    cases h
    obtain ⟨name, hname, hlines⟩ := ok_of_bind_ok hlines
    obtain ⟨tree, htree, hlines⟩ := ok_of_bind_ok hlines
    cases hlines
    exact ⟨name, tree, eq_ok_of_written hname, htree, rfl⟩

theorem quiet_headLines {f : Function} {name : Text} (hname : IsName name)
    (hparams : ∀ q ∈ f.params, IsName q) (hlocals : ∀ n ∈ f.locals, IsName n) :
    ∀ l ∈ f.headLines name, l.text.Quiet := by
  refine List.forall_mem_cons.mpr ⟨quiet_of_startsCalm rfl fun rest => ?_, ?_⟩
  · have hlisted : ∀ q ∈ Text.ofString "self" :: f.params, q.CalmInCode :=
      List.forall_mem_cons.mpr ⟨fun _ _ => calm_of_noNewline (by decide),
        fun q hq => (hparams q hq).calm⟩
    simp only [calm_append]
    exact ⟨⟨⟨⟨calm_of_noNewline (by decide), hname.calm _ rfl⟩, calm_of_noNewline (by decide)⟩,
      calm_listed hlisted _ rfl⟩, calm_of_noNewline (by decide)⟩
  · refine List.forall_mem_map.mpr fun n hn => quiet_of_startsCalm rfl fun rest => ?_
    simp only [calm_append]
    exact ⟨⟨calm_of_noNewline (by decide), (hlocals n hn).calm _ rfl⟩,
      calm_of_noNewline (by decide)⟩

theorem isName_of_build {draws : Draws} {script object functionId : Json} {p : Program}
    (hbuild : Program.build draws script object functionId = .ok p) {f : Function}
    (hf : .function f ∈ p) : (∀ q ∈ f.params, IsName q) ∧ ∀ n ∈ f.locals, IsName n := by
  obtain ⟨_, tag, fields, hblock⟩ := ofBlock_of_build hbuild hf
  obtain ⟨params, hparams, hblock⟩ := ok_of_bind_ok hblock
  obtain ⟨names, hnames, hblock⟩ := ok_of_bind_ok hblock
  cases hblock
  refine ⟨fun q hq => ?_, fun n hn => ?_⟩
  · obtain ⟨id, drawn, hid⟩ := exists_ofParam_of_paramNames hparams hq
    exact vocabulary_isName.paramName id drawn q hid
  · obtain ⟨id, hid⟩ := (mem_localNames hnames).2.2 n hn
    exact vocabulary_isName.localName id n hid

theorem valuedReturns_end {front : List Line} (hfront : ∀ l ∈ front, l.text.Quiet)
    {result : Option Expr} (h : ∀ e, result = some e → e.Over IsName) (width : Nat) :
    valuedReturns (renderLines width front ++ result.elim [] (returnLine width) ++ "\x7d;\n") =
      result.toList.map (returnLine width · ++ "\x7d;\n") := by
  rw [List.append_assoc, valuedReturns_quiet hfront]
  cases result with
  | none => rfl
  | some e => exact valuedReturns_return (h e rfl) width

/-- Where no type of a block has a newline, the code of every function that a script builds returns
a value once, right before its end, or nowhere. A function that cannot be written has a block or an
id that is at fault. -/
theorem value_is_returned_last {draws : Draws} {script object functionId : Json} {p : Program}
    (hbuild : Program.build draws script object functionId = .ok p) {f : Function}
    (hf : .function f ∈ p)
    (htypes : ∀ n ∈ scriptNodes object draws script, n.tag.shown.NoNewline)
    (width : Nat) (owner : Json) :
    (∃ e, ({ width } : Style).function owner f = .error e ∧
      (CausedIn (Node.walkAll f.body) e ∨ f.id.Unencodable e)) ∨
    ∃ t front result, ({ width } : Style).function owner f = .ok t ∧
      t = front ++ result.elim [] (returnLine width) ++ "\x7d;\n" ∧
      valuedReturns t = result.toList.map (returnLine width · ++ "\x7d;\n") ∧
      f.Gives owner result := by
  cases ht : ({ width } : Style).function owner f with
  | error e => exact .inl ⟨e, rfl, errsOnly_function _ owner f e ht⟩
  | ok t =>
    have hbody := body_subset_scriptNodes hbuild hf
    have htags : ∀ n ∈ Node.walkAll f.body, n.tag.shown.NoNewline := fun n hn => htypes n (hbody hn)
    obtain ⟨name, tree, hname, htree, rfl⟩ := lines_of_function ht
    have hgives := gives_returned htags htree fun n hn => argument_ne_null (hbody hn)
    obtain ⟨front, hfront, hlines⟩ := lines_returned htags htree
    have htext : renderLines width (f.headLines name ++ tree.lines ++ [⟨0, "\x7d;"⟩]) =
        renderLines width (f.headLines name ++ front)
          ++ tree.returned?.elim [] (returnLine width) ++ "\x7d;\n" := by
      rw [hlines, ← List.append_assoc]
      simp only [renderLines_append]
      cases tree.returned? with
      | none => rfl
      | some e =>
        rw [Option.map_some, Option.toList_some, renderLines_one]
        rfl
    refine .inr ⟨_, _, tree.returned?, rfl, htext, ?_, hgives⟩
    obtain ⟨hparams, hlocals⟩ := isName_of_build hbuild hf
    have hhead := quiet_headLines (vocabulary_isName.functionName _ _ name hname) hparams hlocals
    rw [htext]
    refine valuedReturns_end (List.forall_mem_append.mpr ⟨hhead, hfront⟩) (fun e he => ?_) width
    exact over_of_gives (he ▸ hgives)

/-- A function that says a text with a line of code in it, and then sets a variable under a
condition. -/
def scoreScript : Json :=
  let block (tag : Text) (params : List Json) (branches : List Json) : Json :=
    .obj [("type", .str tag), ("id", .str "f"), ("params", .arr params),
      ("statements", .arr branches)]
  .arr [.arr [block "function_create_value" [] [.arr [
    block "dialog" [.str "\nreturn 5;", .str "speak"] [],
    block "_if" [block "True" [] []] [.arr [
      block "set_variable" [.str "score", .str "1"] [], block "no_such_block" [] []]]]]]]

theorem score_is_returned_last :
    ∃ f t, Program.build (.all 0) scoreScript .null .null = .ok [.function f] ∧
      (∀ n ∈ scriptNodes .null (.all 0) scoreScript, n.tag.shown.NoNewline) ∧
      ({} : Style).function .null f = .ok t ∧
      valuedReturns t =
        [Text.ofString "  return Entry.variables.get(\"score\");\n\x7d;\n"] := by
  obtain ⟨f, t, last, n, hbuild, ht, hvalue, hlast, haction, hfind, htag, hargument⟩ :
      ∃ f t last n, Program.build (.all 0) scoreScript .null .null = .ok [.function f] ∧
        ({} : Style).function .null f = .ok t ∧ f.returnsValue = true ∧
        f.body.getLast? = some last ∧ last.isAction {} = .ok true ∧
        last.backwards.find? Node.assigns = some n ∧ n.tag = .str "set_variable" ∧
        n.argument? 0 = some (.literal (.str "score")) :=
    ⟨_, _, _, _, rfl, rfl, rfl, rfl, rfl, rfl, rfl, rfl⟩
  have htypes : ∀ n ∈ scriptNodes .null (.all 0) scoreScript, n.tag.shown.NoNewline := by decide
  have hother : ¬ last.IsResult := fun h => by cases haction.symm.trans h.2
  rcases value_is_returned_last hbuild (List.mem_singleton_self (Declaration.function f)) htypes 2
      .null with ⟨e, he, -⟩ | ⟨t', front, result, ht', -, hreturns, hgives⟩
  · cases ht.symm.trans he
  · cases ht.symm.trans ht'
    have hresult := ((hgives.assigned last hvalue hlast hother).1 _).mpr
      ⟨n, hfind, .inProject (.inl htag) hargument⟩
    rw [hresult] at hreturns
    exact ⟨f, t, hbuild, htypes, ht, hreturns⟩

end BlockScript
