-- Rounds of loops that hand control back. A loop adds a yield to its body unless
-- some block in it is counted as one that waits, so the loop waits exactly if
-- nothing is counted or a block that is written out does wait.
import BlockScript.Proofs.ActionForms
import BlockScript.Proofs.Awaiting

namespace BlockScript

/-! ## What actions take and write out -/

namespace ActionKind

/-- The slots whose values an action takes. Other slots hold plain words, or nothing. -/
@[simp]
def valueSlots : ActionKind → List Nat
  | .locateXy | .rotateByTime | .directionRelativeDuration | .dialogTime
  | .soundSomethingSecondWithBlock | .soundSomethingSecondWaitWithBlock => [0, 1]
  | .locateXyTime | .moveXyTime | .soundFromToAndWait => [0, 1, 2]
  | .addEffectAmount | .changeEffectAmount | .setVariable | .changeVariable
  | .setFuncVariable => [1]
  | .changeValueListIndex => [1, 2]
  | .insertValueToList => [0, 2]
  | .locate | .seeAngleObject | .bounceWall | .show | .hide | .removeDialog | .changeToNextShape
  | .eraseAllEffects | .changeObjectIndex | .soundSilentAll | .repeatInf | .stopRepeat
  | .continueRepeat | .stopObject | .restartProject | .createClone | .deleteClone
  | .removeAllClones | .messageCast | .messageCastWait | .startScene | .startNeighborScene
  | .showVariable | .hideVariable => []
  | _ => [0]

@[simp]
def isLoop : ActionKind → Bool
  | .repeatBasic | .repeatInf | .repeatWhileTrue => true
  | _ => false

/-- The branches that an action writes out, each with the scope that it stands in. -/
@[simp]
def branches (s : Scope) : ActionKind → List (Nat × Scope)
  | .ifOnly => [(0, s)]
  | .ifElse => [(0, s), (1, s)]
  | .repeatBasic | .repeatInf | .repeatWhileTrue => [(0, s.inLoop)]
  | _ => []

/-- Whether the action hands control back by itself: also where it goes on with the next round of a
loop. -/
@[simp]
def handsBack (level : Int) (kind : ActionKind) : Bool :=
  kind.suspends || (kind = .continueRepeat && 0 < level)

end ActionKind

section Kinds

variable {tag : Json} {slots : List Slot}

theorem givesOnly_slotKey_plain (i : Nat) :
    GivesOnly (fun e => e.awaits = false) (slotKey tag slots i) := by
  unfold slotKey
  split
  · exact givesOnly_error _
  · refine givesOnly_ok ?_
    unfold Expr.quoted
    split <;> rfl

/-- The branch makes statements whose code starts with words and which wait just in the scopes that
pass `W`. -/
def Body.Tells (b : Body) (W : Scope → Prop) : Prop :=
  ∀ s, GivesOnly (fun made => Stmt.leadAll made = true ∧ (Stmt.awaitsAny made = true ↔ W s))
    (b.make s)

/-- A round waits if the branch does, or by a yield of its own if nothing in it is counted. -/
theorem Body.tells_round {b : Body} {W : Scope → Prop} (h : b.Tells W) (s : Scope) :
    GivesOnly (fun made => Stmt.leadAll made = true ∧
      (Stmt.awaitsAny made = true ↔ W s.inLoop ∨ suspends b.nodes = .ok false)) (b.round s) := by
  refine givesOnly_bind (givesOnly_mapError (h s.inLoop)) fun made hmade => ?_
  refine givesOnly_of_bind fun suspended hsuspended => givesOnly_ok ?_
  have hcount : suspends b.nodes = .ok suspended := by
    cases hb : suspends b.nodes <;> rw [hb] at hsuspended <;> cases hsuspended
    rfl
  have hyield : yieldNow.leads = true ∧ yieldNow.awaits = true := ⟨rfl, rfl⟩
  cases suspended with
  | true => simp [hcount, hmade]
  | false => simp [hcount, hmade, hyield]

/-- Why the statements of an action wait: it hands control back by itself, a value that it takes
waits, a branch does, or it is a loop with a yield of its own. -/
def WaitsAs (s : Scope) (tag : Json) (slots : List Slot) (bodies : List Body)
    (W : Nat → Scope → Prop) (kind : ActionKind) : Prop :=
  kind.handsBack s.level = true ∨
  (∃ i ∈ kind.valueSlots, ∃ e, slot tag slots i = .ok e ∧ e.awaits = true) ∨
  (∃ b ∈ kind.branches s, W b.1 b.2) ∨
  (kind.isLoop = true ∧ suspends (bodyAt bodies 0).nodes = .ok false)

/-- A call on an object that a target names. -/
theorem leads_on_object (object target : Json) (field : Text) :
    ((objectNamed object target).method field []).leads = true ∧
      ((objectNamed object target).method field []).awaits = false := by
  unfold objectNamed
  split
  · exact ⟨rfl, rfl⟩
  · unfold Expr.quoted
    split <;> exact ⟨rfl, rfl⟩

theorem awaits_not_stopScripts (slots : List Slot) :
    Stmt.leadAll (stopScripts slots) = true ∧ Stmt.awaitsAny (stopScripts slots) = false := by
  unfold stopScripts
  repeat' split
  all_goals exact ⟨rfl, rfl⟩

theorem tells_setLocal (s : Scope) (bodies : List Body) (W : Nat → Scope → Prop) :
    GivesOnly (fun made => Stmt.leadAll made = true ∧
      (Stmt.awaitsAny made = true ↔ WaitsAs s tag slots bodies W .setFuncVariable))
      (setLocal tag slots) := by
  unfold setLocal
  refine givesOnly_of_bind fun value hvalue => ?_
  simp only
  split
  · refine givesOnly_of_bind fun name hname => givesOnly_ok ?_
    have hleads : Text.opens isNameStart name = true := opens_make (by decide) (named_eq_ok hname)
    simp [WaitsAs, hvalue, hleads, Expr.leads, ActionKind.suspends]
  · exact givesOnly_error _

/-- The statements of an action of a known kind lead with words and wait as said. -/
theorem tells_compile {s : Scope} {bodies : List Body} {W : Nat → Scope → Prop}
    (hbodies : ∀ i, (bodyAt bodies i).Tells (W i)) (kind : ActionKind) :
    GivesOnly (fun made => Stmt.leadAll made = true ∧
      (Stmt.awaitsAny made = true ↔ WaitsAs s tag slots bodies W kind))
      (kind.compile s tag slots bodies) := by
  have hbody i := givesOnly_mapError (f := Obstacle.fault) (hbodies i s)
  have hround i := Body.tells_round (hbodies i) s
  cases kind
  case setFuncVariable => exact tells_setLocal s bodies W
  case stopObject =>
    refine givesOnly_ok ⟨(awaits_not_stopScripts slots).1, ?_⟩
    simp [awaits_not_stopScripts, WaitsAs, ActionKind.suspends]
  case createClone =>
    have hclone := leads_on_object s.object (slotLiteral slots 0 (.str "self")) "clone"
    refine givesOnly_ok ?_
    simp [WaitsAs, ActionKind.suspends, hclone]
  case continueRepeat =>
    refine givesOnly_ok ?_
    by_cases hlevel : s.level > 0
    · rw [if_pos hlevel]
      simp [WaitsAs, ActionKind.suspends, hlevel, yieldNow, Expr.leads]
    · rw [if_neg hlevel]
      simp [WaitsAs, ActionKind.suspends, hlevel]
  case ifOnly =>
    refine givesOnly_of_bind fun condition hcondition => ?_
    refine givesOnly_bind (hbody 0) fun body hbody => givesOnly_ok ?_
    simp [WaitsAs, ActionKind.suspends, hcondition, hbody]
  case ifElse =>
    refine givesOnly_of_bind fun condition hcondition => ?_
    refine givesOnly_bind (hbody 0) fun first hfirst => ?_
    refine givesOnly_bind (hbody 1) fun other hother => givesOnly_ok ?_
    simp [WaitsAs, ActionKind.suspends, hcondition, hfirst, hother, or_assoc]
  case repeatBasic =>
    refine givesOnly_of_bind fun bound hbound => ?_
    refine givesOnly_bind (hround 0) fun body hbody => givesOnly_ok ?_
    simp [WaitsAs, ActionKind.suspends, hbound, hbody]
  case repeatInf =>
    refine givesOnly_bind (hround 0) fun body hbody => givesOnly_ok ?_
    simp [WaitsAs, ActionKind.suspends, hbody, Expr.truth]
  case repeatWhileTrue =>
    refine givesOnly_of_bind fun condition hcondition => ?_
    refine givesOnly_bind (hround 0) fun body hbody => givesOnly_ok ?_
    split <;> simp [WaitsAs, ActionKind.suspends, hcondition, hbody]
  all_goals
    simp only [ActionKind.compile]
    repeat' first
      | refine givesOnly_bind (givesOnly_slotKey_plain _) fun _ _ => ?_
      | refine givesOnly_of_bind fun _ _ => ?_
      | refine givesOnly_ok ?_
    simp +decide [*, WaitsAs, ActionKind.suspends, onSelf, onEntry, waitSelf, waitEntry,
      selfProperty, soundVolume, Expr.projectVariables, Expr.method, Expr.self, Expr.entry,
      Expr.leads, Expr.isCallee, yieldNow, or_comm]

end Kinds

/-! ## Nodes that wait -/

/-- The node is written out in the scope: it is supported and its values resolve. -/
def Node.IsWritten (n : Node) (s : Scope) : Prop :=
  ∃ statements, n.attempt? {} s = some (.ok statements)

/-- A node that is written out and hands control back in its own lines, whatever its branches do. -/
inductive Node.Waits (n : Node) (s : Scope) : Prop
  | action {kind : ActionKind} : n.action? = some kind → n.IsWritten s →
      kind.handsBack s.level = true → n.Waits s
  | call {id : Text} : n.action? = none → n.callee? = some id → n.IsWritten s → n.Waits s
  | value {kind : ActionKind} {i : Nat} {e : Expr} : n.action? = some kind → n.IsWritten s →
      i ∈ kind.valueSlots → n.slotValue {} s.object i = .ok e → e.awaits = true → n.Waits s
  | round {kind : ActionKind} : n.action? = some kind → n.IsWritten s → kind.isLoop = true →
      BlockScript.suspends (n.branch 0) = .ok false → n.Waits s

/-- The nodes that are written out below a body in a scope, each with its own scope: those of the
body, and those of the branches of the ones that are. -/
inductive Reached : Scope → List Node → Scope → Node → Prop
  | member {s : Scope} {body : List Node} {n : Node} : n ∈ body → Reached s body s n
  | inside {s s' s'' : Scope} {body : List Node} {n m : Node} {kind : ActionKind} {i : Nat} :
      n ∈ body → n.action? = some kind → n.IsWritten s → (i, s') ∈ kind.branches s →
      Reached s' (n.branch i) s'' m → Reached s body s'' m

/-- Some node that is written out below the body waits. -/
def ReachesWait (s : Scope) (body : List Node) : Prop := ∃ s' n, Reached s body s' n ∧ n.Waits s'

/-- The node waits by itself, or a branch of it that is written out does. -/
def Node.WaitsWithin (n : Node) (s : Scope) : Prop :=
  n.Waits s ∨ ∃ kind, n.action? = some kind ∧ n.IsWritten s ∧
    ∃ b ∈ kind.branches s, ReachesWait b.2 (n.branch b.1)

theorem reachesWait_iff (s : Scope) (body : List Node) :
    ReachesWait s body ↔ ∃ n ∈ body, n.WaitsWithin s := by
  constructor
  · rintro ⟨s', m, hreached, hwaits⟩
    cases hreached with
    | member hm => exact ⟨m, hm, .inl hwaits⟩
    | @inside _ s₁ _ _ n _ kind i hn hkind hwritten hbranch hinside =>
      exact ⟨n, hn, .inr ⟨kind, hkind, hwritten, (i, s₁), hbranch, s', m, hinside, hwaits⟩⟩
  · rintro ⟨n, hn, hwaits | ⟨kind, hkind, hwritten, ⟨i, s₁⟩, hbranch, s', m, hinside, hwaits⟩⟩
    · exact ⟨s, n, .member hn, hwaits⟩
    · exact ⟨s', m, .inside hn hkind hwritten hbranch hinside, hwaits⟩

/-- The statements made from a body lead with words, and wait if a node below it does. -/
def Described (body : List Node) : Prop :=
  ∀ s, GivesOnly (fun made => Stmt.leadAll made = true ∧
    (Stmt.awaitsAny made = true ↔ ReachesWait s body)) (Node.actionsAll {} body s)

theorem bodyAt_bodies (x : Extensions) (branches : List (List Node)) (i : Nat) :
    bodyAt (Node.bodies x branches) i =
      { nodes := branches[i]?.getD []
        make := fun s => Node.actionsAll x (branches[i]?.getD []) s } := by
  induction branches generalizing i with
  | nil => rfl
  | cons branch rest ih =>
    cases i with
    | zero => rfl
    | succ i => exact ih i

/-- A node of a known kind that is written out waits as its kind does. -/
theorem waitsWithin_iff {n : Node} {s : Scope} {kind : ActionKind} (hkind : n.action? = some kind)
    (hwritten : n.IsWritten s) :
    n.WaitsWithin s ↔ WaitsAs s n.tag (Argument.slots {} s.object n.arguments)
      (Node.bodies {} n.branches) (fun i s => ReachesWait s (n.branch i)) kind := by
  unfold Node.WaitsWithin WaitsAs
  rw [bodyAt_bodies]
  constructor
  · rintro (hwaits | ⟨kind', hkind', -, hinside⟩)
    · cases hwaits with
      | action hkind' _ hback =>
        cases hkind.symm.trans hkind'
        exact .inl hback
      | call hnone => cases hkind.symm.trans hnone
      | value hkind' _ hi he hawaits =>
        cases hkind.symm.trans hkind'
        exact .inr (.inl ⟨_, hi, _, he, hawaits⟩)
      | round hkind' _ hloop hcount =>
        cases hkind.symm.trans hkind'
        exact .inr (.inr (.inr ⟨hloop, hcount⟩))
    · cases hkind.symm.trans hkind'
      exact .inr (.inr (.inl hinside))
  · rintro (hback | ⟨i, hi, e, he, hawaits⟩ | hinside | ⟨hloop, hcount⟩)
    · exact .inl (.action hkind hwritten hback)
    · exact .inl (.value hkind hwritten hi he hawaits)
    · exact .inr ⟨kind, hkind, hwritten, hinside⟩
    · exact .inl (.round hkind hwritten hloop hcount)

theorem not_waitsWithin {n : Node} {s : Scope} (h : ¬ n.IsWritten s) : ¬ n.WaitsWithin s := by
  rintro (hwaits | ⟨_, _, hwritten, _⟩)
  · cases hwaits <;> exact h ‹_›
  · exact h hwritten

theorem tells_branch {n : Node} {i : Nat} (h : Described (n.branch i)) :
    (bodyAt (Node.bodies {} n.branches) i).Tells (fun s => ReachesWait s (n.branch i)) := by
  rw [bodyAt_bodies]
  exact h

/-- What is written out for a node leads with words and waits if the node does. -/
theorem tells_attempt {n : Node} (hbranches : ∀ i : Nat, Described (n.branch i)) {s : Scope}
    {made : List Stmt} (h : n.attempt? {} s = some (.ok made)) :
    Stmt.leadAll made = true ∧ (Stmt.awaitsAny made = true ↔ n.WaitsWithin s) := by
  have hwritten : n.IsWritten s := ⟨made, h⟩
  rcases Node.attempt_cases h with ⟨kind, hkind, hmade⟩ | ⟨id, hnone, hid, hmade⟩
  · rw [waitsWithin_iff hkind hwritten]
    exact tells_compile (fun i => tells_branch (hbranches i)) kind made hmade.symm
  · obtain ⟨e, he, hmade⟩ := ok_of_bind_ok hmade.symm
    cases hmade
    obtain ⟨arguments, -, he⟩ := ok_of_bind_ok he
    obtain ⟨name, -, he⟩ := ok_of_bind_ok he
    cases he
    have hwaits : n.WaitsWithin s := .inl (.call hnone hid hwritten)
    simp [Expr.leads, hwaits]

theorem tells_node {n : Node} (hbranches : ∀ i : Nat, Described (n.branch i)) (s : Scope) :
    GivesOnly (fun made => Stmt.leadAll made = true ∧
      (Stmt.awaitsAny made = true ↔ n.WaitsWithin s)) (n.actions {} s) := by
  intro made h
  rcases Node.actions_cases h with hmade | ⟨hnone, rfl⟩ | ⟨f, hfails, rfl⟩
  · exact tells_attempt hbranches hmade
  · have hnot : ¬ n.WaitsWithin s := not_waitsWithin fun ⟨_, hmade⟩ => by
      rw [hnone] at hmade
      cases hmade
    simp [BlockScript.unsupported, hnot]
  · have hnot : ¬ n.WaitsWithin s := not_waitsWithin fun ⟨_, hmade⟩ => by
      rw [hfails] at hmade
      cases hmade
    simp [skipped, hnot]

mutual

theorem described_branches : (n : Node) → ∀ i : Nat, Described (n.branch i)
  | .mk _ _ branches _ => fun i => described_at branches i

theorem described_body : (body : List Node) → Described body
  | [] => fun s => givesOnly_ok (by simp [reachesWait_iff])
  | n :: rest => by
    intro s
    refine givesOnly_bind (tells_node (described_branches n) s) fun first hfirst => ?_
    refine givesOnly_bind (described_body rest s) fun others hothers => givesOnly_ok ?_
    simp [hfirst, hothers, reachesWait_iff]

theorem described_at : (branches : List (List Node)) → ∀ i : Nat, Described (branches[i]?.getD [])
  | [], _ => fun s => givesOnly_ok (by simp [reachesWait_iff])
  | branch :: _, 0 => described_body branch
  | _ :: rest, i + 1 => described_at rest i

end

/-! ## Loops -/

/-- What a loop does in each round. -/
def Stmt.loopBody : Stmt → List Stmt
  | .count _ _ body | .loop _ body => body
  | _ => []

/-- A loop that is written out is one statement: a head, a round of its branch, a closing brace. -/
theorem round_of_loop {n : Node} {s : Scope} {kind : ActionKind} (hkind : n.action? = some kind)
    (hloop : kind.isLoop = true) {made : List Stmt} (h : n.attempt? {} s = some (.ok made))
    (depth : Int) :
    ∃ st head, made = [st] ∧ (bodyAt (Node.bodies {} n.branches) 0).round s = .ok st.loopBody ∧
      st.lines depth = head :: (Stmt.linesAll (depth + 1) st.loopBody ++ [⟨depth, "\x7d"⟩]) := by
  rcases Node.attempt_cases h with ⟨kind', hkind', hmade⟩ | ⟨id, hnone, -, -⟩
  · cases hkind.symm.trans hkind'
    cases kind with
    | repeatBasic =>
      obtain ⟨bound, -, hmade⟩ := ok_of_bind_ok hmade.symm
      obtain ⟨body, hbody, hmade⟩ := ok_of_bind_ok hmade
      cases hmade
      exact ⟨_, _, rfl, hbody, rfl⟩
    | repeatInf =>
      obtain ⟨body, hbody, hmade⟩ := ok_of_bind_ok hmade.symm
      cases hmade
      exact ⟨_, _, rfl, hbody, rfl⟩
    | repeatWhileTrue =>
      obtain ⟨condition, -, hmade⟩ := ok_of_bind_ok hmade.symm
      obtain ⟨body, hbody, hmade⟩ := ok_of_bind_ok hmade
      cases hmade
      exact ⟨_, _, rfl, hbody, rfl⟩
    | _ => cases hloop
  · cases hkind.symm.trans hnone

/-- A loop that is written out waits in its rounds exactly if nothing in its branch is counted as
waiting, or a block that is written out below it does wait. A line of code between its head and its
closing brace then shows it. -/
theorem round_waits_iff_a_block_does {n : Node} {s : Scope} {kind : ActionKind}
    (hkind : n.action? = some kind) (hloop : kind.isLoop = true) {made : List Stmt}
    (hmade : n.actions {} s = .ok made) (hcode : ∀ t, made ≠ [.comment t]) (depth : Int) :
    ∃ st head, made = [st] ∧
      st.lines depth = head :: (Stmt.linesAll (depth + 1) st.loopBody ++ [⟨depth, "\x7d"⟩]) ∧
      (Stmt.awaitsAny st.loopBody = true ↔
        suspends (n.branch 0) = .ok false ∨ ReachesWait s.inLoop (n.branch 0)) ∧
      (Stmt.awaitsAny st.loopBody = true →
        ∃ l ∈ Stmt.linesAll (depth + 1) st.loopBody, l.Awaits) := by
  rcases Node.actions_cases hmade with hwritten | ⟨-, rfl⟩ | ⟨f, -, rfl⟩
  · obtain ⟨st, head, hst, hround, hlines⟩ := round_of_loop hkind hloop hwritten depth
    have htells := tells_branch (described_branches n 0)
    obtain ⟨hleads, hwaits⟩ := Body.tells_round htells s _ hround
    have hcounted : suspends (bodyAt (Node.bodies {} n.branches) 0).nodes =
        suspends (n.branch 0) := by
      rw [bodyAt_bodies]
      rfl
    refine ⟨st, head, hst, hlines, ?_, fun h => Stmt.awaiting_lines hleads h (depth + 1)⟩
    rw [hwaits, hcounted, or_comm]
    rfl
  · exact absurd rfl (hcode _)
  · exact absurd rfl (hcode _)

/-- Waits for a second below a condition, in an endless loop. -/
def nestedWait : Node :=
  .mk (.str "repeat_inf") [] [[.mk (.str "_if") [.block (.mk (.str "True") [] [] {})]
    [[.mk (.str "wait_second") [.literal (.int 1)] [] {}]] {}]] {}

theorem nestedWait_reachesWait : ReachesWait (Scope.inLoop {}) (nestedWait.branch 0) := by
  have hbranch : (0, Scope.inLoop {}) ∈ ActionKind.ifOnly.branches (Scope.inLoop {}) := .head _
  exact ⟨_, _, .inside (.head _) rfl ⟨_, rfl⟩ hbranch (.member (.head _)),
    .action rfl ⟨_, rfl⟩ rfl⟩

/-- The loop has no yield of its own, and the wait below the condition is in its lines. -/
theorem nested_wait_is_in_the_round :
    suspends (nestedWait.branch 0) = .ok true ∧
      ∃ st head, nestedWait.actions {} {} = .ok [st] ∧
        st.lines 0 = head :: (Stmt.linesAll 1 st.loopBody ++ [⟨0, "\x7d"⟩]) ∧
        ∃ l ∈ Stmt.linesAll 1 st.loopBody, l.Awaits := by
  refine ⟨rfl, ?_⟩
  obtain ⟨body, hmade⟩ : ∃ body, nestedWait.actions {} {} = .ok [.loop (.truth true) body] :=
    ⟨_, rfl⟩
  have hcode : ∀ t, [Stmt.loop (.truth true) body] ≠ [.comment t] := by
    intro t h
    cases h
  obtain ⟨st, head, hst, hlines, hwaits, hshown⟩ :=
    round_waits_iff_a_block_does (n := nestedWait) rfl rfl hmade hcode 0
  exact ⟨st, head, hst ▸ hmade, hlines, hshown (hwaits.mpr (.inr nestedWait_reachesWait))⟩

/-- Is to wait in an endless loop, for a time that is not given. -/
def skippedWait : Node :=
  .mk (.str "repeat_inf") [] [[.mk (.str "wait_second") [] [] {}]] {}

/-- The wait counts, so that the loop has no yield, but a comment stands in its place. -/
theorem skipped_wait_leaves_a_spinning_loop :
    suspends (skippedWait.branch 0) = .ok true ∧
      ∃ st, skippedWait.actions {} {} = .ok [st] ∧
        renderLines 2 (st.lines 0) = Text.ofString ("while (true) \x7b\n" ++
          "  // skipped 'wait_second': missing argument in 'wait_second'\n\x7d\n") ∧
        ∀ l ∈ st.lines 0, ¬ l.Awaits := by
  refine ⟨rfl, _, rfl, by decide +kernel, ?_⟩
  unfold Line.Awaits
  decide +kernel

end BlockScript
