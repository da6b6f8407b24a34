-- Declarations line by line. The text of a handler or a function is that of its
-- lines, from the head to the end, and the source of a program is that of its
-- declarations.
import BlockScript.Proofs.Declarations

namespace BlockScript

/-! ## Lines -/

/-- What the body of a function comes to: its statements, and what it returns after them, if
anything. That is a value, or the failure of one. -/
structure FunctionTree where
  statements : List Stmt
  result : Option (Except Failure Expr) := none

/-- The line that returns a value, or says why there is none. -/
def resultLine : Except Failure Expr → Line
  | .ok e => ⟨1, "return " ++ e.render 0 ++ ";"⟩
  | .error f => ⟨1, "// skipped return: " ++ f.describe⟩

def FunctionTree.lines (b : FunctionTree) : List Line :=
  Stmt.linesAll 1 b.statements ++ (b.result.map resultLine).toList

/-- The value or its failure. A fault goes on. -/
def resultOf : Outcome → Except Fault (Except Failure Expr)
  | .ok e => .ok (.ok e)
  | .error (.failure f) => .ok (.error f)
  | .error (.fault f) => .error f

namespace Style

variable (y : Style)

def functionTree (f : Function) (s : Scope) : Except Fault FunctionTree :=
  match f.returnsValue, f.body.getLast? with
  | true, some last => do
    let hasValue ← last.isValue y.extensions
    if hasValue && !(← last.isAction y.extensions) then
      let statements ← Node.actionsAll y.extensions f.body.dropLast s
      return { statements, result := some (← resultOf (last.value y.extensions s.object)) }
    else
      let statements ← Node.actionsAll y.extensions f.body s
      if returnsValue (renderLines y.width (Stmt.linesAll 1 statements)) then
        return { statements }
      return { statements, result := (← returnedVariable last).map .ok }
  | _, _ => do return { statements := ← Node.actionsAll y.extensions f.body s }

/-- The lines of a function: its head, one line for each local variable, its body and its end. -/
def functionLines (object : Json) (f : Function) : Except Fault (List Line) := do
  let name ← written (Name.ofFunction f.id f.drawn)
  let tree ← y.functionTree f { object }
  return ⟨0, "Entry.func." ++ name ++ " = async function ("
      ++ Text.joined ", " ("self" :: f.params) ++ ") \x7b"⟩
    :: f.locals.map (fun n => ⟨1, "let " ++ n ++ " = 0;"⟩) ++ tree.lines ++ [⟨0, "\x7d;"⟩]

def handlerLines (object : Json) (h : Handler) : Except Fault (List Line) :=
  match binding? h.event y.bindings with
  | none => .ok [⟨0, "// TODO: unsupported event '" ++ h.event ++ "'"⟩]
  | some b =>
    match b.guard.condition? h.arguments with
    | none => .ok [⟨0, "// skipped handler '" ++ h.event ++ "': missing event argument"⟩]
    | some condition => do
      let body :=
        Stmt.linesAll (1 + b.extraDepth) (← Node.actionsAll y.extensions h.body { object })
      let guarded := if condition.isEmpty then body
        else ⟨1, "if (" ++ condition ++ ") \x7b"⟩ :: body ++ [⟨1, "\x7d"⟩]
      return ⟨0, "self.on(" ++ b.event.quoted ++ ", async (" ++ b.param ++ ") => \x7b"⟩
        :: guarded ++ [⟨0, "\x7d);"⟩]

end Style

/-- The lines of a declaration. -/
def Declaration.lines (y : Style) (object : Json) : Declaration → Except Fault (List Line)
  | .handler h => y.handlerLines object h
  | .function f => y.functionLines object f

/-! ## Forms -/

/-- What the forms, and the names and comments of a body, pass holds of the code of the function. A
value that it lacks is that of a block in it. -/
theorem closed_functionTree {y : Style} {lowest : Int} {Q : Expr → Prop} {S : Stmt → Prop}
    (h : FormsPass y.extensions lowest Q S) {f : Function} {s : Scope} (hlevel : lowest ≤ s.level)
    (hbody : NodesPass Q S (Node.walkAll f.body)) :
    GivesOnly (fun tree => (∀ st ∈ tree.statements, S st) ∧
      (∀ e, tree.result = some (.ok e) → Q e) ∧
      ∀ e : Failure, tree.result = some (.error e) → e.Names (Node.walkAll f.body))
      (y.functionTree f s) := by
  have hactions := closed_actionsAll h f.body hbody s hlevel
  unfold Style.functionTree
  split
  · rename_i last _ hlast
    have hsub : last.walk ⊆ Node.walkAll f.body :=
      Node.walk_subset_walkAll (List.mem_of_getLast? hlast)
    have hnamed : NamedPass Q last.walk := hbody.toNamedPass.within hsub
    refine givesOnly_of_bind fun hasValue _ => ?_
    refine givesOnly_of_bind fun isAction _ => ?_
    split
    · have hfront := hbody.within (Node.walkAll_mono (List.dropLast_subset f.body))
      refine givesOnly_bind (closed_actionsAll h _ hfront s hlevel) fun statements hstatements => ?_
      refine givesOnly_of_bind fun r hr => givesOnly_ok ⟨hstatements, ?_, ?_⟩
      all_goals
        rintro e ⟨⟩
        unfold resultOf at hr
        split at hr <;> cases hr
        rename_i hvalue
      · exact closed_value h.values h.addedValue s.object last hnamed e hvalue
      · exact Failure.Names.mono (failsOnly_value y.extensions s.object last _ hvalue)
          fun m hm => hsub (last.operands_subset_walk hm)
    · refine givesOnly_bind hactions fun statements hstatements => ?_
      split
      · exact givesOnly_ok ⟨hstatements, by simp, by simp⟩
      · refine givesOnly_bind (closed_returnedVariable h.values hnamed) fun found hfound =>
          givesOnly_ok ⟨hstatements, ?_, by simp⟩
        intro e he
        obtain ⟨e', he', heq⟩ := Option.map_eq_some_iff.mp he
        cases heq
        exact hfound e he'
  · exact givesOnly_bind hactions fun statements hstatements =>
      givesOnly_ok ⟨hstatements, by simp, by simp⟩

/-! ## Texts -/

section Text

variable (y : Style) (object : Json)

theorem renderLines_append (width : Nat) (ls ms : List Line) :
    renderLines width (ls ++ ms) = renderLines width ls ++ renderLines width ms := by
  simp [renderLines]

theorem renderLines_cons (width : Nat) (l : Line) (ls : List Line) :
    renderLines width (l :: ls) = l.render width ++ renderLines width ls := rfl

theorem renderLines_one (width : Nat) (l : Line) : renderLines width [l] = l.render width := by
  simp [renderLines]

theorem returned_eq (value : Outcome) :
    y.returned value = (resultOf value).map fun r => (resultLine r).render y.width := by
  unfold Style.returned resultOf
  split <;> rfl

theorem body_eq (body : List Node) (s : Scope) :
    y.body 1 body s = (Node.actionsAll y.extensions body s).map fun statements =>
      renderLines y.width (FunctionTree.lines { statements }) := by
  unfold Style.body
  cases Node.actionsAll y.extensions body s with
  | error e => rfl
  | ok statements => simp [bind, Except.bind, Except.map, pure, Except.pure, FunctionTree.lines]

theorem functionBody_eq (f : Function) (s : Scope) :
    y.functionBody f s = (y.functionTree f s).map fun tree => renderLines y.width tree.lines := by
  have hplain : y.body 1 f.body s =
      (do return { statements := ← Node.actionsAll y.extensions f.body s }
        : Except Fault FunctionTree).map fun tree => renderLines y.width tree.lines := by
    rw [body_eq]
    cases Node.actionsAll y.extensions f.body s <;> rfl
  unfold Style.functionBody Style.functionTree
  cases f.returnsValue with
  | false => exact hplain
  | true =>
    cases f.body.getLast? with
    | none => exact hplain
    | some last =>
      simp only [body_eq, returned_eq]
      cases last.isValue y.extensions with
      | error e => rfl
      | ok hasValue =>
        cases last.isAction y.extensions with
        | error e => rfl
        | ok isAction =>
          by_cases hreturn : (hasValue && !isAction) = true
          · simp only [bind, Except.bind, hreturn, if_true]
            cases Node.actionsAll y.extensions f.body.dropLast s with
            | error e => rfl
            | ok statements =>
              cases resultOf (last.value y.extensions s.object) with
              | error e => rfl
              | ok r =>
                simp [Except.map, pure, Except.pure, FunctionTree.lines, renderLines_append,
                  renderLines_one]
          · simp only [bind, Except.bind, hreturn]
            cases Node.actionsAll y.extensions f.body s with
            | error e => rfl
            | ok statements =>
              have htext : renderLines y.width (FunctionTree.lines { statements })
                  = renderLines y.width (Stmt.linesAll 1 statements) := by
                simp [FunctionTree.lines]
              simp only [Except.map, htext]
              by_cases hvalued :
                  returnsValue (renderLines y.width (Stmt.linesAll 1 statements)) = true
              · simp [hvalued, pure, Except.pure, FunctionTree.lines]
              · cases returnedVariable last with
                | error e => simp [hvalued]
                | ok found =>
                  cases found <;>
                    simp [hvalued, pure, Except.pure, FunctionTree.lines, renderLines_append,
                      renderLines_one, Style.line, resultLine]

theorem render_closing (width : Nat) (t rest : Text) :
    Line.render width ⟨0, t ++ rest⟩ = t ++ (rest ++ Text.ofString "\n") := by
  rw [render_outer, List.append_assoc]

theorem function_eq (f : Function) :
    y.function object f = (y.functionLines object f).map (renderLines y.width) := by
  unfold Style.function Style.functionLines
  rw [functionBody_eq]
  cases written (Name.ofFunction f.id f.drawn) with
  | error e => rfl
  | ok name =>
    cases y.functionTree f { object } with
    | error e => rfl
    | ok tree =>
      have hlocals : renderLines y.width (f.locals.map fun n => ⟨1, "let " ++ n ++ " = 0;"⟩)
          = f.locals.flatMap fun n => y.line 1 ("let " ++ n ++ " = 0;") := by
        rw [renderLines, List.flatMap_map]
        rfl
      simp only [bind, Except.bind, Except.map, pure, Except.pure]
      rw [renderLines_append, renderLines_append, renderLines_cons, renderLines_one, hlocals,
        render_closing]
      simp only [List.append_assoc]
      rfl

theorem handler_eq (h : Handler) :
    y.handler object h = (y.handlerLines object h).map (renderLines y.width) := by
  unfold Style.handler Style.handlerLines
  cases binding? h.event y.bindings with
  | none =>
    simp only [Except.map]
    rw [renderLines_one, render_closing]
    rfl
  | some b =>
    simp only
    cases b.guard.condition? h.arguments with
    | none =>
      simp only [Except.map]
      rw [renderLines_one, render_closing]
      rfl
    | some condition =>
      unfold Style.body
      cases Node.actionsAll y.extensions h.body { object } with
      | error e => rfl
      | ok statements =>
        simp only [bind, Except.bind, Except.map, pure, Except.pure]
        rw [renderLines_append, renderLines_cons, renderLines_one, render_closing]
        split
        · simp only [List.append_assoc]
          rfl
        · rw [renderLines_append, renderLines_cons, renderLines_one]
          simp only [List.append_assoc]
          rfl

/-- The text of a declaration is that of its lines. -/
theorem text_eq (d : Declaration) :
    d.text y object = (d.lines y object).map (renderLines y.width) := by
  cases d with
  | handler h => exact handler_eq y object h
  | function f => exact function_eq y object f

end Text

/-! ## Programs -/

theorem forall₂_of_mapM_ok {ε α β : Type} {f : α → Except ε β} {xs : List α} {ys : List β}
    (h : xs.mapM f = .ok ys) : List.Forall₂ (fun x y => f x = .ok y) xs ys := by
  induction xs generalizing ys with
  | nil =>
    cases h
    exact .nil
  | cons x rest ih =>
    rw [List.mapM_cons] at h
    obtain ⟨y, hy, h⟩ := ok_of_bind_ok h
    obtain ⟨more, hmore, h⟩ := ok_of_bind_ok h
    cases h
    exact .cons hy (ih hmore)

/-- The declarations of a program in the order in which they are written. -/
def Program.inOrder (p : Program) : List Declaration :=
  p.functions.map .function ++ p.handlers.map .handler

theorem Program.mem_inOrder (p : Program) (d : Declaration) : d ∈ p.inOrder ↔ d ∈ p := by
  unfold Program.inOrder Program.functions Program.handlers
  rw [List.mem_append, List.mem_map, List.mem_map]
  simp only [List.mem_filterMap]
  constructor
  · rintro (⟨f, ⟨d', hd', hf⟩, rfl⟩ | ⟨h, ⟨d', hd', hh⟩, rfl⟩)
    · cases d' with
      | handler h => cases hf
      | function f' =>
        cases hf
        exact hd'
    · cases d' with
      | function f => cases hh
      | handler h' =>
        cases hh
        exact hd'
  · intro hd
    cases d with
    | function f => exact .inl ⟨f, ⟨_, hd, rfl⟩, rfl⟩
    | handler h => exact .inr ⟨h, ⟨_, hd, rfl⟩, rfl⟩

/-- The texts of a program are those of its declarations. -/
theorem texts_of_parts {y : Style} {object : Json} {p : Program} {texts : List Text}
    (h : y.parts object p = .ok texts) :
    List.Forall₂ (fun d t => d.text y object = .ok t) p.inOrder texts := by
  obtain ⟨fs, hfs, h⟩ := ok_of_bind_ok h
  obtain ⟨hs, hhs, h⟩ := ok_of_bind_ok h
  cases h
  refine List.rel_append ?_ ?_
  · exact List.forall₂_map_left_iff.mpr (forall₂_of_mapM_ok hfs)
  · exact List.forall₂_map_left_iff.mpr (forall₂_of_mapM_ok hhs)

end BlockScript
