-- Ways back to the head of a loop. A block that goes on with the next round yields
-- first wherever a loop is counted, and a round in which nothing waits ends with a
-- yield, so no such round is left for the next one without a yield.
import BlockScript.Proofs.Jumps

namespace BlockScript

/-! ## Runs -/

namespace Stmt

/-- A statement without others in it that does not jump. -/
def isPlain : Stmt → Bool
  | .comment _ | .verbatim _ | .run _ | .set _ _ | .raise _ _ => true
  | _ => false

/-- A statement that repeats others. -/
def repeats : Stmt → Bool
  | .count _ _ _ | .loop _ _ => true
  | _ => false

end Stmt

/-- The runs of some statements, whatever values they meet: the plain statements that are passed,
in order, and the jump by which the run is left, if it does not come to the end. -/
inductive Runs : List Stmt → List Stmt → Option Jump → Prop
  | done : Runs [] [] none
  | plain {st : Stmt} {rest passed : List Stmt} {exit : Option Jump} : st.isPlain = true →
      Runs rest passed exit → Runs (st :: rest) (st :: passed) exit
  | jump {j : Jump} {rest : List Stmt} : Runs (.jump j :: rest) [] (some j)
  | chosen {c : Expr} {body rest passed : List Stmt} {other : Option (List Stmt)}
      {exit : Option Jump} :
      Runs (body ++ rest) passed exit → Runs (.choose c body other :: rest) passed exit
  | other {c : Expr} {body rest passed : List Stmt} {other : Option (List Stmt)}
      {exit : Option Jump} :
      Runs (other.getD [] ++ rest) passed exit → Runs (.choose c body other :: rest) passed exit
  | ended {st : Stmt} {rest passed : List Stmt} {exit : Option Jump} : st.repeats = true →
      Runs rest passed exit → Runs (st :: rest) passed exit
  | round {st : Stmt} {rest passed more : List Stmt} {way exit : Option Jump} :
      st.repeats = true → Runs st.loopBody passed way → way = none ∨ way = some .next →
      Runs (st :: rest) more exit → Runs (st :: rest) (passed ++ more) exit
  | left {st : Stmt} {rest passed more : List Stmt} {exit : Option Jump} : st.repeats = true →
      Runs st.loopBody passed (some .leave) → Runs rest more exit →
      Runs (st :: rest) (passed ++ more) exit
  | stopped {st : Stmt} {rest passed : List Stmt} : st.repeats = true →
      Runs st.loopBody passed (some .back) → Runs (st :: rest) passed (some .back)

/-- A run of two lists is left in the first, or goes on through the second. -/
theorem runs_append {as bs passed : List Stmt} {exit : Option Jump}
    (h : Runs (as ++ bs) passed exit) :
    (exit ≠ none ∧ Runs as passed exit) ∨
      ∃ before after, passed = before ++ after ∧ Runs as before none ∧ Runs bs after exit := by
  generalize hss : as ++ bs = ss at h
  induction h generalizing as with
  | done =>
    obtain ⟨rfl, rfl⟩ := List.append_eq_nil_iff.mp hss
    exact .inr ⟨[], [], rfl, .done, .done⟩
  | @plain st rest passed exit hst hrest ih =>
    rcases List.append_eq_cons_iff.mp hss with ⟨rfl, rfl⟩ | ⟨as', rfl, rfl⟩
    · exact .inr ⟨[], _, rfl, .done, .plain hst hrest⟩
    · rcases ih rfl with ⟨hexit, has⟩ | ⟨before, after, rfl, has, hbs⟩
      · exact .inl ⟨hexit, .plain hst has⟩
      · exact .inr ⟨st :: before, after, rfl, .plain hst has, hbs⟩
  | @jump j rest =>
    rcases List.append_eq_cons_iff.mp hss with ⟨rfl, rfl⟩ | ⟨as', rfl, rfl⟩
    · exact .inr ⟨[], _, rfl, .done, .jump⟩
    · exact .inl ⟨by simp, .jump⟩
  | @chosen c body rest passed other exit hbody ih =>
    rcases List.append_eq_cons_iff.mp hss with ⟨rfl, rfl⟩ | ⟨as', rfl, rfl⟩
    · exact .inr ⟨[], _, rfl, .done, .chosen hbody⟩
    · rcases ih (List.append_assoc _ _ _) with ⟨hexit, has⟩ | ⟨before, after, rfl, has, hbs⟩
      · exact .inl ⟨hexit, .chosen has⟩
      · exact .inr ⟨before, after, rfl, .chosen has, hbs⟩
  | @other c body rest passed other exit hbody ih =>
    rcases List.append_eq_cons_iff.mp hss with ⟨rfl, rfl⟩ | ⟨as', rfl, rfl⟩
    · exact .inr ⟨[], _, rfl, .done, .other hbody⟩
    · rcases ih (List.append_assoc _ _ _) with ⟨hexit, has⟩ | ⟨before, after, rfl, has, hbs⟩
      · exact .inl ⟨hexit, .other has⟩
      · exact .inr ⟨before, after, rfl, .other has, hbs⟩
  | @ended st rest passed exit hst hrest ih =>
    rcases List.append_eq_cons_iff.mp hss with ⟨rfl, rfl⟩ | ⟨as', rfl, rfl⟩
    · exact .inr ⟨[], _, rfl, .done, .ended hst hrest⟩
    · rcases ih rfl with ⟨hexit, has⟩ | ⟨before, after, rfl, has, hbs⟩
      · exact .inl ⟨hexit, .ended hst has⟩
      · exact .inr ⟨before, after, rfl, .ended hst has, hbs⟩
  | @round st rest passed more way exit hst hbody hway hrest _ ih =>
    rcases List.append_eq_cons_iff.mp hss with ⟨rfl, rfl⟩ | ⟨as', rfl, rfl⟩
    · exact .inr ⟨[], _, rfl, .done, .round hst hbody hway hrest⟩
    · rcases ih List.cons_append with ⟨hexit, has⟩ | ⟨before, after, rfl, has, hbs⟩
      · exact .inl ⟨hexit, .round hst hbody hway has⟩
      · exact .inr ⟨passed ++ before, after, by simp, .round hst hbody hway has, hbs⟩
  | @left st rest passed more exit hst hbody hrest _ ih =>
    rcases List.append_eq_cons_iff.mp hss with ⟨rfl, rfl⟩ | ⟨as', rfl, rfl⟩
    · exact .inr ⟨[], _, rfl, .done, .left hst hbody hrest⟩
    · rcases ih rfl with ⟨hexit, has⟩ | ⟨before, after, rfl, has, hbs⟩
      · exact .inl ⟨hexit, .left hst hbody has⟩
      · exact .inr ⟨passed ++ before, after, by simp, .left hst hbody has, hbs⟩
  | @stopped st rest passed hst hbody _ =>
    rcases List.append_eq_cons_iff.mp hss with ⟨rfl, rfl⟩ | ⟨as', rfl, rfl⟩
    · exact .inr ⟨[], _, rfl, .done, .stopped hst hbody⟩
    · exact .inl ⟨by simp, .stopped hst hbody⟩

/-- A run goes on with the next round only by a jump that no loop of the statements holds. -/
theorem next_mem_freeAll {ss passed : List Stmt} (h : Runs ss passed (some .next)) :
    .next ∈ Stmt.freeAll ss := by
  generalize hexit : some Jump.next = exit at h
  induction h with
  | done => cases hexit
  | plain hst _ ih => exact List.mem_append_right _ (ih hexit)
  | jump =>
    cases hexit
    simp
  | chosen _ ih =>
    have hmem := ih hexit
    simp only [Stmt.freeAll_append, Stmt.freeAll, Stmt.freeJumps, List.mem_append] at hmem ⊢
    tauto
  | @other _ _ _ _ other _ _ ih =>
    have hmem := ih hexit
    cases other <;>
      simp only [Option.getD, Stmt.freeAll_append, Stmt.freeAll, Stmt.freeElse, Stmt.freeJumps,
        List.mem_append, List.not_mem_nil] at hmem ⊢ <;> tauto
  | ended hst _ ih => exact List.mem_append_right _ (ih hexit)
  | round hst _ _ _ _ ih => exact ih hexit
  | left hst _ _ _ ih => exact List.mem_append_right _ (ih hexit)
  | stopped => cases hexit

/-! ## The next round -/

/-- Every run of the statements that goes on with the next round has just passed a yield. -/
def YieldsBeforeNext (ss : List Stmt) : Prop :=
  ∀ passed, Runs ss passed (some .next) → passed.getLast? = some yieldNow

theorem yieldsBeforeNext_of_free {ss : List Stmt} (h : .next ∉ Stmt.freeAll ss) :
    YieldsBeforeNext ss :=
  fun _ hruns => absurd (next_mem_freeAll hruns) h

theorem yieldsBeforeNext_append {as bs : List Stmt} (ha : YieldsBeforeNext as)
    (hb : YieldsBeforeNext bs) : YieldsBeforeNext (as ++ bs) := by
  intro passed h
  rcases runs_append h with ⟨-, has⟩ | ⟨before, after, rfl, -, hbs⟩
  · exact ha passed has
  · rw [List.getLast?_append, hb after hbs]
    rfl

theorem yieldsBeforeNext_choose {c : Expr} {body : List Stmt} {other : Option (List Stmt)}
    (hbody : YieldsBeforeNext body) (hother : ∀ ss ∈ other, YieldsBeforeNext ss) :
    YieldsBeforeNext [.choose c body other] := by
  intro passed h
  cases h with
  | plain hst => cases hst
  | chosen h =>
    rw [List.append_nil] at h
    exact hbody passed h
  | other h =>
    rw [List.append_nil] at h
    cases other with
    | none => cases h
    | some ss => exact hother ss rfl passed h
  | ended hst => cases hst
  | round hst => cases hst
  | left hst => cases hst

/-- The body yields before each next round, in every scope with a loop around it. -/
def Yields (body : List Node) : Prop :=
  ∀ s : Scope, 0 < s.level → GivesOnly YieldsBeforeNext (Node.actionsAll {} body s)

theorem yields_statements {n : Node} {i : Nat} (h : Yields (n.branch i)) {s : Scope}
    (hlevel : 0 < s.level) :
    GivesOnly YieldsBeforeNext ((bodyAt (Node.bodies {} n.branches) i).statements s) := by
  rw [bodyAt_bodies]
  exact givesOnly_mapError (h s hlevel)

theorem yieldsBeforeNext_yield : YieldsBeforeNext [yieldNow, .jump .next] := by
  intro passed h
  cases h with
  | plain _ h =>
    cases h with
    | plain hst => cases hst
    | jump => rfl
    | ended hst => cases hst
    | round hst => cases hst
    | left hst => cases hst
  | ended hst => cases hst
  | round hst => cases hst
  | left hst => cases hst

/-- Only three kinds have jumps to the next round outside of loops of their own. -/
theorem yields_node {n : Node} (hbranches : ∀ i : Nat, Yields (n.branch i)) {s : Scope}
    (hlevel : 0 < s.level) : GivesOnly YieldsBeforeNext (n.actions {} s) := by
  intro made h
  rcases Node.actions_cases h with hmade | ⟨-, rfl⟩ | ⟨f, -, rfl⟩
  · have hfree : Stmt.freeAll made = n.looseJumps s.object := (jumps_actions n s made h).2
    rw [Node.looseJumps_eq] at hfree
    rcases Node.attempt_cases hmade with ⟨kind, hkind, hmade⟩ | ⟨id, hnone, -⟩
    · rw [hkind] at hfree
      cases kind with
      | continueRepeat =>
        rw [ActionKind.compile, if_pos hlevel] at hmade
        cases hmade
        exact yieldsBeforeNext_yield
      | ifOnly =>
        obtain ⟨condition, -, hmade⟩ := ok_of_bind_ok hmade.symm
        obtain ⟨body, hbody, hmade⟩ := ok_of_bind_ok hmade
        cases hmade
        exact yieldsBeforeNext_choose (yields_statements (hbranches 0) hlevel _ hbody) (by simp)
      | ifElse =>
        obtain ⟨condition, -, hmade⟩ := ok_of_bind_ok hmade.symm
        obtain ⟨body, hbody, hmade⟩ := ok_of_bind_ok hmade
        obtain ⟨other, hother, hmade⟩ := ok_of_bind_ok hmade
        cases hmade
        exact yieldsBeforeNext_choose (yields_statements (hbranches 0) hlevel _ hbody)
          (by simpa using yields_statements (hbranches 1) hlevel _ hother)
      | _ => exact yieldsBeforeNext_of_free (by simp [hfree, ActionKind.looseJumps])
    · exact yieldsBeforeNext_of_free (by simp [hfree, hnone])
  · exact yieldsBeforeNext_of_free (by simp [BlockScript.unsupported])
  · exact yieldsBeforeNext_of_free (by simp [skipped])

mutual

theorem yields_branches : (n : Node) → ∀ i : Nat, Yields (n.branch i)
  | .mk _ _ branches _ => fun i => yields_at branches i

theorem yields_body : (body : List Node) → Yields body
  | [] => fun _ _ => givesOnly_ok (yieldsBeforeNext_of_free (by simp))
  | n :: rest => by
    intro s hlevel
    refine givesOnly_bind (yields_node (yields_branches n) hlevel) fun first hfirst => ?_
    refine givesOnly_bind (yields_body rest s hlevel) fun others hothers => givesOnly_ok ?_
    exact yieldsBeforeNext_append hfirst hothers

theorem yields_at : (branches : List (List Node)) → ∀ i : Nat, Yields (branches[i]?.getD [])
  | [], _ => fun _ _ => givesOnly_ok (yieldsBeforeNext_of_free (by simp))
  | branch :: _, 0 => yields_body branch
  | _ :: rest, i + 1 => yields_at rest i

end

/-! ## Blocks below a loop -/

/-- A branch stands in the scope of its block, or one level further in if the block is a loop. -/
theorem scope_of_branch {s s' : Scope} {kind : ActionKind} {i : Nat}
    (h : (i, s') ∈ kind.branches s) : s' = if kind.isLoop then s.inLoop else s := by
  cases kind with
  | ifOnly => exact (Prod.mk.inj (List.mem_singleton.mp h)).2
  | ifElse =>
    rcases List.mem_cons.mp h with h | h
    · exact (Prod.mk.inj h).2
    · exact (Prod.mk.inj (List.mem_singleton.mp h)).2
  | repeatBasic | repeatInf | repeatWhileTrue =>
    exact (Prod.mk.inj (List.mem_singleton.mp h)).2
  | _ => cases h

/-- The levels count the loops on the way down. -/
theorem level_of_reached {s s' : Scope} {body : List Node} {m : Node}
    (h : Reached s body s' m) : s.level ≤ s'.level := by
  induction h with
  | member => exact Int.le_refl _
  | @inside s s₁ s₂ body n m kind i _ _ _ hbranch _ ih =>
    refine Int.le_trans ?_ ih
    rw [scope_of_branch hbranch]
    split
    · exact Int.le_add_one (Int.le_refl _)
    · exact Int.le_refl _

theorem linesAll_append (depth : Int) (as bs : List Stmt) :
    Stmt.linesAll depth (as ++ bs) = Stmt.linesAll depth as ++ Stmt.linesAll depth bs := by
  induction as with
  | nil => rfl
  | cons st rest ih => simp [Stmt.linesAll, ih]

/-- The statements of a body hold those of each of its nodes. -/
theorem statements_of_mem {body : List Node} {n : Node} (hn : n ∈ body) {s : Scope}
    {made : List Stmt} (h : Node.actionsAll {} body s = .ok made) :
    ∃ inner, n.actions {} s = .ok inner ∧ inner <:+: made := by
  induction body generalizing made with
  | nil => cases hn
  | cons m rest ih =>
    obtain ⟨first, hfirst, h⟩ := ok_of_bind_ok h
    obtain ⟨others, hothers, h⟩ := ok_of_bind_ok h
    cases h
    rcases List.mem_cons.mp hn with rfl | hn
    · exact ⟨first, hfirst, List.infix_append [] first others⟩
    · obtain ⟨inner, hinner, hinfix⟩ := ih hn hothers
      exact ⟨inner, hinner, hinfix.trans (List.suffix_append first others).isInfix⟩

theorem lines_within {as bs : List Stmt} (h : as <:+: bs) (depth : Int) :
    Stmt.linesAll depth as <:+: Stmt.linesAll depth bs := by
  obtain ⟨before, after, rfl⟩ := h
  rw [linesAll_append, linesAll_append]
  exact List.infix_append _ _ _

theorem actionsAll_of_statements {n : Node} {i : Nat} {s : Scope} {made : List Stmt}
    (h : (bodyAt (Node.bodies {} n.branches) i).statements s = .ok made) :
    Node.actionsAll {} (n.branch i) s = .ok made := by
  rw [bodyAt_bodies, Body.statements] at h
  change (Node.actionsAll {} (n.branch i) s).mapError Obstacle.fault = .ok made at h
  cases hmade : Node.actionsAll {} (n.branch i) s <;> rw [hmade] at h <;> cases h
  rfl

/-- A round is what the branch becomes, with a yield after it unless something in it counts as
waiting. -/
theorem round_cases {n : Node} {s : Scope} {made : List Stmt}
    (h : (bodyAt (Node.bodies {} n.branches) 0).round s = .ok made) :
    ∃ inner, Node.actionsAll {} (n.branch 0) s.inLoop = .ok inner ∧ inner <+: made ∧
      ((suspends (n.branch 0) = .ok true ∧ made = inner) ∨
        (suspends (n.branch 0) = .ok false ∧ made = inner ++ [yieldNow])) := by
  obtain ⟨inner, hinner, h⟩ := ok_of_bind_ok h
  obtain ⟨suspended, hsuspended, h⟩ := ok_of_bind_ok h
  refine ⟨inner, actionsAll_of_statements hinner, ?_⟩
  rw [bodyAt_bodies] at hsuspended
  change (suspends (n.branch 0)).mapError Obstacle.fault = .ok suspended at hsuspended
  cases hcount : suspends (n.branch 0) <;> rw [hcount] at hsuspended <;> cases hsuspended
  cases suspended <;> cases h
  · exact ⟨List.prefix_append _ _, .inr ⟨rfl, rfl⟩⟩
  · exact ⟨List.prefix_rfl, .inl ⟨rfl, rfl⟩⟩

theorem lines_of_body (c : Expr) (body : List Stmt) (other : Option (List Stmt)) (depth : Int) :
    Stmt.linesAll (depth + 1) body <:+: Stmt.linesAll depth [.choose c body other] :=
  ⟨[⟨depth, "if (" ++ c.render 0 ++ ") \x7b"⟩], Stmt.linesElse depth other ++ [⟨depth, "\x7d"⟩],
    by simp [Stmt.linesAll, Stmt.lines]⟩

theorem lines_of_else (c : Expr) (body other : List Stmt) (depth : Int) :
    Stmt.linesAll (depth + 1) other <:+: Stmt.linesAll depth [.choose c body (some other)] :=
  ⟨⟨depth, "if (" ++ c.render 0 ++ ") \x7b"⟩ :: (Stmt.linesAll (depth + 1) body
      ++ [⟨depth, "\x7d else \x7b"⟩]), [⟨depth, "\x7d"⟩],
    by simp [Stmt.linesAll, Stmt.lines, Stmt.linesElse]⟩

/-- A block that is written out has the lines of its branches among its own. -/
theorem lines_of_branch {n : Node} {s s' : Scope} {kind : ActionKind} {i : Nat}
    (hkind : n.action? = some kind) (hbranch : (i, s') ∈ kind.branches s) {made : List Stmt}
    (h : n.attempt? {} s = some (.ok made)) (depth : Int) :
    ∃ inner, Node.actionsAll {} (n.branch i) s' = .ok inner ∧
      Stmt.linesAll (depth + 1) inner <:+: Stmt.linesAll depth made := by
  by_cases hloop : kind.isLoop = true
  · obtain ⟨st, head, rfl, hround, hlines⟩ := round_of_loop hkind hloop h depth
    obtain ⟨inner, hinner, hfront, -⟩ := round_cases hround
    obtain ⟨rfl, rfl⟩ : i = 0 ∧ s' = s.inLoop := by
      cases kind <;> first | exact absurd hloop (by decide) | simpa using hbranch
    refine ⟨inner, hinner, (lines_within hfront.isInfix (depth + 1)).trans ?_⟩
    rw [Stmt.linesAll, Stmt.linesAll, List.append_nil, hlines]
    exact ⟨[head], [⟨depth, "\x7d"⟩], rfl⟩
  · rcases Node.attempt_cases h with ⟨kind', hkind', hmade⟩ | ⟨id, hnone, -⟩
    · cases hkind.symm.trans hkind'
      cases kind with
      | ifOnly =>
        obtain ⟨condition, -, hmade⟩ := ok_of_bind_ok hmade.symm
        obtain ⟨body, hbody, hmade⟩ := ok_of_bind_ok hmade
        cases hmade
        cases List.mem_singleton.mp hbranch
        exact ⟨body, actionsAll_of_statements hbody, lines_of_body condition body none depth⟩
      | ifElse =>
        obtain ⟨condition, -, hmade⟩ := ok_of_bind_ok hmade.symm
        obtain ⟨body, hbody, hmade⟩ := ok_of_bind_ok hmade
        obtain ⟨other, hother, hmade⟩ := ok_of_bind_ok hmade
        cases hmade
        rcases List.mem_cons.mp hbranch with heq | hbranch
        · cases heq
          exact ⟨body, actionsAll_of_statements hbody,
            lines_of_body condition body (some other) depth⟩
        · cases List.mem_singleton.mp hbranch
          exact ⟨other, actionsAll_of_statements hother, lines_of_else condition body other depth⟩
      | repeatBasic | repeatInf | repeatWhileTrue => exact absurd rfl hloop
      | _ => cases hbranch
    · cases hkind.symm.trans hnone

theorem attempt_of_written {n : Node} {s : Scope} (h : n.IsWritten s) {made : List Stmt}
    (hmade : n.actions {} s = .ok made) : n.attempt? {} s = some (.ok made) := by
  obtain ⟨statements, hstatements⟩ := h
  rcases Node.actions_cases hmade with h | ⟨h, -⟩ | ⟨f, h, -⟩
  · exact h
  · cases hstatements.symm.trans h
  · cases hstatements.symm.trans h

/-- The lines of a block that is reached stand together among those of the body. -/
theorem lines_of_reached {s s' : Scope} {body : List Node} {m : Node}
    (h : Reached s body s' m) {made : List Stmt} (hmade : Node.actionsAll {} body s = .ok made)
    (depth : Int) :
    ∃ inner depth', m.actions {} s' = .ok inner ∧
      Stmt.linesAll depth' inner <:+: Stmt.linesAll depth made := by
  induction h generalizing made depth with
  | member hm =>
    obtain ⟨inner, hinner, hinfix⟩ := statements_of_mem hm hmade
    exact ⟨inner, depth, hinner, lines_within hinfix depth⟩
  | @inside s s₁ s₂ body n m kind i hn hkind hwritten hbranch _ ih =>
    obtain ⟨outer, houter, hinfix⟩ := statements_of_mem hn hmade
    obtain ⟨inner, hinner, hlines⟩ :=
      lines_of_branch hkind hbranch (attempt_of_written hwritten houter) depth
    obtain ⟨found, depth', hfound, hshown⟩ := ih hinner (depth + 1)
    exact ⟨found, depth', hfound, (hshown.trans hlines).trans (lines_within hinfix depth)⟩

/-! ## Loops -/

theorem actions_of_kind {n : Node} {kind : ActionKind} (hkind : n.action? = some kind) (s : Scope) :
    n.actions {} s = orSkipped n.tag (kind.compile s n.tag
      (Argument.slots {} s.object n.arguments) (Node.bodies {} n.branches)) := by
  obtain ⟨tag, arguments, branches, labels⟩ := n
  cases tag with
  | str t =>
    change ActionKind.ofTag? t = some kind at hkind
    simp only [Node.actions, actionsOf, hkind]
    rfl
  | _ => cases hkind

/-- In a loop, a block that goes on with the next round is a yield and a jump. -/
theorem lines_of_continue {m : Node} (hkind : m.action? = some .continueRepeat) {s : Scope}
    (hlevel : 0 < s.level) {made : List Stmt} (h : m.actions {} s = .ok made) (depth : Int) :
    Stmt.linesAll depth made = [⟨depth, "await Entry.yield();"⟩, ⟨depth, "continue;"⟩] := by
  rw [actions_of_kind hkind, ActionKind.compile] at h
  cases h
  rw [if_pos hlevel]
  rfl

theorem not_suspends {body : List Node} (h : ∀ m ∈ Node.walkAll body, m.suspends = false) :
    suspends body ≠ .ok true := by
  intro hsuspends
  unfold suspends at hsuspends
  split at hsuspends
  · cases hsuspends
  · rename_i m hm
    have hcounted := List.find?_some hm
    rw [h m (List.mem_of_find?_eq_some hm), Bool.false_or, Bool.not_eq_true'] at hcounted
    rw [Json.demandKey, hcounted] at hsuspends
    cases hsuspends

theorem last_of_yield {passed : List Stmt} {exit : Option Jump}
    (h : Runs [yieldNow] passed exit) : passed.getLast? = some yieldNow := by
  cases h with
  | plain _ h =>
    cases h
    rfl
  | ended hst => cases hst
  | round hst => cases hst
  | left hst => cases hst
  | stopped hst => cases hst

/-- A loop that is written out yields on its ways back. Each block below it that goes on with the
next round is written as a yield and a jump. If nothing in the loop counts as waiting, the line
before its closing brace is a yield, and every round of it ends with a yield, unless it leaves the
loop. -/
theorem loops_yield_on_the_way_back {n : Node} {s : Scope} {kind : ActionKind}
    (hkind : n.action? = some kind) (hloop : kind.isLoop = true) (hlevel : 0 ≤ s.level)
    {made : List Stmt} (hmade : n.actions {} s = .ok made) (hcode : ∀ t, made ≠ [.comment t])
    (depth : Int) :
    ∃ st head, made = [st] ∧
      st.lines depth = head :: (Stmt.linesAll (depth + 1) st.loopBody ++ [⟨depth, "\x7d"⟩]) ∧
      (∀ s' m, Reached s.inLoop (n.branch 0) s' m → m.action? = some .continueRepeat →
        ∃ next d, m.actions {} s' = .ok next ∧
          Stmt.linesAll d next = [⟨d, "await Entry.yield();"⟩, ⟨d, "continue;"⟩] ∧
          Stmt.linesAll d next <:+: Stmt.linesAll (depth + 1) st.loopBody) ∧
      ((∀ m ∈ Node.walkAll (n.branch 0), m.suspends = false) →
        (∃ front, Stmt.linesAll (depth + 1) st.loopBody
          = front ++ [⟨depth + 1, "await Entry.yield();"⟩]) ∧
        ∀ passed exit, Runs st.loopBody passed exit → exit = none ∨ exit = some .next →
          passed.getLast? = some yieldNow) := by
  have hwritten : n.attempt? {} s = some (.ok made) := by
    rcases Node.actions_cases hmade with h | ⟨-, rfl⟩ | ⟨f, -, rfl⟩
    · exact h
    · exact absurd rfl (hcode _)
    · exact absurd rfl (hcode _)
  obtain ⟨st, head, rfl, hround, hlines⟩ := round_of_loop hkind hloop hwritten depth
  obtain ⟨inner, hinner, hfront, hbody⟩ := round_cases hround
  refine ⟨st, head, rfl, hlines, ?_, ?_⟩
  · intro s' m hreached hnext
    have hpositive : 0 < s'.level :=
      Int.lt_of_lt_of_le (Int.lt_add_one_of_le hlevel) (level_of_reached hreached)
    obtain ⟨next, d, hmade, hinfix⟩ := lines_of_reached hreached hinner (depth + 1)
    exact ⟨next, d, hmade, lines_of_continue hnext hpositive hmade d,
      hinfix.trans (lines_within hfront.isInfix (depth + 1))⟩
  · intro hquiet
    have hbody := (hbody.resolve_left fun h => not_suspends hquiet h.1).2
    rw [hbody]
    refine ⟨⟨Stmt.linesAll (depth + 1) inner, linesAll_append _ _ _⟩, ?_⟩
    intro passed exit hruns hexit
    rcases runs_append hruns with ⟨hleft, hruns⟩ | ⟨before, after, rfl, -, hruns⟩
    · obtain rfl := hexit.resolve_left hleft
      exact yields_body (n.branch 0) s.inLoop (Int.lt_add_one_of_le hlevel) inner hinner passed
        hruns
    · rw [List.getLast?_append, last_of_yield hruns]
      rfl

/-- Goes on with the next round in the branch of a condition, and in a loop of three rounds in the
other branch. -/
def nestedNext : Node :=
  .mk (.str "repeat_inf") [] [[.mk (.str "if_else") [.block (.mk (.str "True") [] [] {})]
    [[.mk (.str "continue_repeat") [] [] {}],
      [.mk (.str "repeat_basic") [.literal (.int 3)]
        [[.mk (.str "continue_repeat") [] [] {}]] {}]] {}]] {}

theorem nestedNext_reached : Reached (Scope.inLoop {}) (nestedNext.branch 0)
    (Scope.inLoop (Scope.inLoop {})) (.mk (.str "continue_repeat") [] [] {}) := by
  have helse : (1, Scope.inLoop {}) ∈ ActionKind.ifElse.branches (Scope.inLoop {}) :=
    .tail _ (.head _)
  have hround : (0, Scope.inLoop (Scope.inLoop {})) ∈
      ActionKind.repeatBasic.branches (Scope.inLoop {}) := .head _
  exact .inside (.head _) rfl ⟨_, rfl⟩ helse
    (.inside (.head _) rfl ⟨_, rfl⟩ hround (.member (.head _)))

/-- The inner block is written as a yield and a jump, and the rounds of the outer loop end with a
yield. -/
theorem nested_next_rounds_yield :
    Reached (Scope.inLoop {}) (nestedNext.branch 0) (Scope.inLoop (Scope.inLoop {}))
        (.mk (.str "continue_repeat") [] [] {}) ∧
      ∃ st, nestedNext.actions {} {} = .ok [st] ∧
        (∃ d, [⟨d, "await Entry.yield();"⟩, ⟨d, "continue;"⟩]
          <:+: Stmt.linesAll 1 st.loopBody) ∧
        (∃ front, Stmt.linesAll 1 st.loopBody = front ++ [⟨1, "await Entry.yield();"⟩]) ∧
        ∀ passed exit, Runs st.loopBody passed exit → exit = none ∨ exit = some .next →
          passed.getLast? = some yieldNow := by
  obtain ⟨body, hmade⟩ : ∃ body, nestedNext.actions {} {} = .ok [.loop (.truth true) body] :=
    ⟨_, rfl⟩
  have hcode : ∀ t, [Stmt.loop (.truth true) body] ≠ [.comment t] := by
    intro t h
    cases h
  have hquiet : ∀ m ∈ Node.walkAll (nestedNext.branch 0), m.suspends = false := by
    decide +kernel
  obtain ⟨st, head, hst, -, hnext, hyields⟩ :=
    loops_yield_on_the_way_back (n := nestedNext) rfl rfl (Int.le_refl 0) hmade hcode 0
  obtain ⟨next, d, -, hlines, hinfix⟩ := hnext _ _ nestedNext_reached rfl
  exact ⟨nestedNext_reached, st, hst ▸ hmade, ⟨d, hlines ▸ hinfix⟩, hyields hquiet⟩

end BlockScript
