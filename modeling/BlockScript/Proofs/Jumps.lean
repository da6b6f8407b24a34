-- Jumps out of rounds. A jump is written wherever its block stands, so the jumps
-- that no loop of their own handler or function holds are those of the blocks
-- that stand in no loop: in the body itself, or below conditions only.
import BlockScript.Proofs.DeclarationLines
import BlockScript.Proofs.Suspension

namespace BlockScript

/-! ## Lines and what they open -/

/-- What a line does to the blocks around it: it jumps, opens a loop or another block, closes one,
turns from one branch to the other, or none of these. -/
inductive Role where
  | jump (j : Jump)
  | loop
  | block
  | turn
  | close
  | plain

def Line.role (l : Line) : Role :=
  if l.text = Text.ofString "break;" then .jump .leave
  else if l.text = Text.ofString "continue;" then .jump .next
  else if Text.startsWith l.text "for (" || Text.startsWith l.text "while (" then .loop
  else if l.text = Text.ofString "\x7d else \x7b" then .turn
  else if Text.startsWith l.text "\x7d" then .close
  else if Text.startsWith l.text "//" then .plain
  else if l.text.getLast? = some (.char '\x7b') then .block
  else .plain

/-- The jumps of some lines that stand inside no loop. The blocks that are open say for each
whether it is a loop. -/
def strayJumps (opened : List Bool) : List Line → List Jump
  | [] => []
  | l :: rest =>
    match l.role with
    | .jump j => if true ∈ opened then strayJumps opened rest else j :: strayJumps opened rest
    | .loop => strayJumps (true :: opened) rest
    | .block => strayJumps (false :: opened) rest
    | .turn => strayJumps (false :: opened.tail) rest
    | .close => strayJumps opened.tail rest
    | .plain => strayJumps opened rest

/-- No line that jumps, opens a loop or closes a block starts like this. -/
def isPlainStart (c : Char) : Bool := c ∉ ['b', 'c', 'f', 'w', '\x7d']

theorem startsWith_of_plain {t : Text} (h : Text.opens isPlainStart t = true) {c : Char}
    (hc : isPlainStart c = false) (rest : Text) : Text.startsWith t (.char c :: rest) = false := by
  match t with
  | .char d :: more =>
    have hne : c ≠ d := by
      rintro rfl
      rw [show isPlainStart c = true from h] at hc
      cases hc
    simp [Text.startsWith, Text.after?, hne]

theorem ne_of_plain {t : Text} (h : Text.opens isPlainStart t = true) {c : Char}
    (hc : isPlainStart c = false) (rest : Text) : t ≠ .char c :: rest := by
  rintro rfl
  rw [show isPlainStart c = true from h] at hc
  cases hc

theorem role_of_plain {t : Text} (h : Text.opens isPlainStart t = true) (depth : Int) :
    Line.role ⟨depth, t⟩ =
      if Text.startsWith t "//" then .plain
      else if t.getLast? = some (.char '\x7b') then .block
      else .plain := by
  have hleave : t ≠ Text.ofString "break;" := ne_of_plain h rfl _
  have hnext : t ≠ Text.ofString "continue;" := ne_of_plain h rfl _
  have hfor : Text.startsWith t "for (" = false := startsWith_of_plain h rfl _
  have hwhile : Text.startsWith t "while (" = false := startsWith_of_plain h rfl _
  have hturn : t ≠ Text.ofString "\x7d else \x7b" := ne_of_plain h rfl _
  have hclose : Text.startsWith t "\x7d" = false := startsWith_of_plain h rfl _
  unfold Line.role
  simp [hleave, hnext, hfor, hwhile, hturn, hclose]

/-- A line of code that ends its statement. -/
theorem role_of_code {t : Text} (h : Text.opens isPlainStart t = true) (depth : Int) :
    Line.role ⟨depth, t ++ ";"⟩ = .plain := by
  have hopens : Text.opens isPlainStart (t ++ ";") = true := by
    match t with
    | .char c :: rest => exact h
  have hlast : (t ++ Text.ofString ";").getLast? = some (.char ';') := by
    simp [show Text.ofString ";" = [.char ';'] from rfl]
  rw [role_of_plain hopens, hlast]
  simp

theorem role_of_head {t : Text} (h : Text.opens isPlainStart t = true)
    (hcode : Text.startsWith (t ++ "\x7b") "//" = false) (depth : Int) :
    Line.role ⟨depth, t ++ "\x7b"⟩ = .block := by
  have hopens : Text.opens isPlainStart (t ++ "\x7b") = true := by
    match t with
    | .char c :: rest => exact h
  have hlast : (t ++ Text.ofString "\x7b").getLast? = some (.char '\x7b') := by
    simp [show Text.ofString "\x7b" = [.char '\x7b'] from rfl]
  rw [role_of_plain hopens, hcode, hlast]
  simp

theorem role_of_comment (t : Text) (depth : Int) :
    Line.role ⟨depth, "// " ++ t⟩ = .plain := by
  rw [role_of_plain rfl]
  rfl

/-! ## Statements -/

namespace Stmt

mutual

/-- The jumps in a statement that no loop of it holds. -/
@[simp]
def freeJumps : Stmt → List Jump
  | .jump .back => []
  | .jump j => [j]
  | .choose _ body other => freeAll body ++ freeElse other
  | _ => []

@[simp]
def freeAll : List Stmt → List Jump
  | [] => []
  | s :: rest => freeJumps s ++ freeAll rest

@[simp]
def freeElse : Option (List Stmt) → List Jump
  | none => []
  | some body => freeAll body

end

mutual

/-- No line of code in the statement is taken for a jump, a loop or an end. -/
@[simp]
def tame : Stmt → Bool
  | .comment _ | .jump _ => true
  | .verbatim _ => false
  | .run e => Text.opens isPlainStart (e.render 0)
  | .set target _ | .raise target _ => Text.opens isPlainStart (target.render 0)
  | .choose _ body other => tameAll body && tameElse other
  | .count _ _ body | .loop _ body => tameAll body

@[simp]
def tameAll : List Stmt → Bool
  | [] => true
  | s :: rest => tame s && tameAll rest

@[simp]
def tameElse : Option (List Stmt) → Bool
  | none => true
  | some body => tameAll body

end

@[simp] theorem freeAll_append (as bs : List Stmt) :
    freeAll (as ++ bs) = freeAll as ++ freeAll bs := by
  induction as with
  | nil => rfl
  | cons s rest ih => simp [ih]

@[simp] theorem tameAll_append (as bs : List Stmt) :
    tameAll (as ++ bs) = (tameAll as && tameAll bs) := by
  induction as with
  | nil => rfl
  | cons s rest ih => simp [ih, Bool.and_assoc]

/-- The jumps that count as stray between blocks that are open. -/
def strayIn (opened : List Bool) (jumps : List Jump) : List Jump :=
  if true ∈ opened then [] else jumps

theorem strayIn_append (opened : List Bool) (js js' : List Jump) :
    strayIn opened (js ++ js') = strayIn opened js ++ strayIn opened js' := by
  unfold strayIn
  split <;> rfl

theorem strayIn_block (opened : List Bool) (js : List Jump) :
    strayIn (false :: opened) js = strayIn opened js := by
  simp [strayIn]

theorem strayIn_loop (opened : List Bool) (js : List Jump) : strayIn (true :: opened) js = [] := by
  simp [strayIn]

section Lines

variable (opened : List Bool) (rest : List Line) (depth : Int)

theorem stray_plain {l : Line} (h : l.role = .plain) :
    strayJumps opened (l :: rest) = strayJumps opened rest := by
  rw [strayJumps, h]

theorem stray_close :
    strayJumps opened (⟨depth, "\x7d"⟩ :: rest) = strayJumps opened.tail rest := by
  rw [strayJumps]
  rfl

theorem stray_turn :
    strayJumps opened (⟨depth, "\x7d else \x7b"⟩ :: rest)
      = strayJumps (false :: opened.tail) rest := by
  rw [strayJumps]
  rfl

theorem stray_if (condition : Text) :
    strayJumps opened (⟨depth, "if (" ++ condition ++ ") \x7b"⟩ :: rest)
      = strayJumps (false :: opened) rest := by
  have hrole : Line.role ⟨depth, "if (" ++ condition ++ ") " ++ "\x7b"⟩ = .block :=
    role_of_head rfl rfl depth
  rw [List.append_assoc] at hrole
  rw [strayJumps]
  simp only [show (Text.ofString ") \x7b") = Text.ofString ") " ++ Text.ofString "\x7b" from rfl,
    hrole]

theorem stray_while (condition : Text) :
    strayJumps opened (⟨depth, "while (" ++ condition ++ ") \x7b"⟩ :: rest)
      = strayJumps (true :: opened) rest := by
  rw [strayJumps]
  rfl

theorem stray_for (level : Int) (bound : Expr) :
    strayJumps opened (⟨depth, countHead level bound⟩ :: rest)
      = strayJumps (true :: opened) rest := by
  rw [strayJumps]
  rfl

theorem stray_jump (j : Jump) :
    strayJumps opened (⟨depth, j.word ++ ";"⟩ :: rest)
      = strayIn opened (freeJumps (.jump j)) ++ strayJumps opened rest := by
  have hjump (j : Jump) : (if true ∈ opened then strayJumps opened rest
      else j :: strayJumps opened rest) = strayIn opened [j] ++ strayJumps opened rest := by
    unfold strayIn
    split <;> rfl
  cases j with
  | leave => exact hjump .leave
  | next => exact hjump .next
  | back =>
    rw [stray_plain _ _ rfl, freeJumps, strayIn]
    simp

end Lines

mutual

/-- Of the lines of a statement, just its free jumps are stray where no loop is open. -/
theorem stray_lines {s : Stmt} (h : s.tame = true) (opened : List Bool) (depth : Int)
    (rest : List Line) :
    strayJumps opened (s.lines depth ++ rest)
      = strayIn opened s.freeJumps ++ strayJumps opened rest := by
  match s with
  | .comment t => simp [lines, stray_plain _ _ (role_of_comment t depth), strayIn]
  | .run e => simp [lines, stray_plain _ _ (role_of_code h depth), strayIn]
  | .set target e =>
    have hline := role_of_code (Text.opens_append (Text.opens_append h " = ") (e.render 0)) depth
    rw [lines, List.singleton_append, stray_plain _ _ hline]
    simp [strayIn]
  | .raise target e =>
    have hline := role_of_code (Text.opens_append (Text.opens_append h " += ") (e.render 0)) depth
    rw [lines, List.singleton_append, stray_plain _ _ hline]
    simp [strayIn]
  | .jump j => exact stray_jump opened rest depth j
  | .choose condition body other =>
    simp only [tame, Bool.and_eq_true] at h
    rw [lines, List.append_assoc, List.append_assoc, List.cons_append, stray_if, stray_all h.1,
      stray_else h.2, List.singleton_append, stray_close, freeJumps, strayIn_append]
    simp [strayIn_block]
  | .count level bound body =>
    rw [lines, List.append_assoc, List.cons_append, stray_for, stray_all h, List.singleton_append,
      stray_close, strayIn_loop]
    simp [strayIn]
  | .loop condition body =>
    rw [lines, List.append_assoc, List.cons_append, stray_while, stray_all h, List.singleton_append,
      stray_close, strayIn_loop]
    simp [strayIn]

theorem stray_all {ss : List Stmt} (h : tameAll ss = true) (opened : List Bool) (depth : Int)
    (rest : List Line) :
    strayJumps opened (linesAll depth ss ++ rest)
      = strayIn opened (freeAll ss) ++ strayJumps opened rest := by
  match ss with
  | [] => simp [linesAll, strayIn]
  | s :: more =>
    simp only [tameAll, Bool.and_eq_true] at h
    rw [linesAll, List.append_assoc, stray_lines h.1, stray_all h.2, freeAll, strayIn_append,
      List.append_assoc]

theorem stray_else {other : Option (List Stmt)} (h : tameElse other = true) (opened : List Bool)
    (depth : Int) (rest : List Line) :
    strayJumps (false :: opened) (linesElse depth other ++ rest)
      = strayIn (false :: opened) (freeElse other) ++ strayJumps (false :: opened) rest := by
  match other with
  | none => simp [linesElse, strayIn]
  | some body =>
    rw [linesElse, List.cons_append, stray_turn, List.tail_cons, stray_all h, freeElse]

end

end Stmt

/-! ## Blocks -/

/-- The jumps of a block of a known kind that no loop of it holds, from those of its branches and
from whether its first value resolves. A condition that does not resolve leaves a comment. -/
def ActionKind.looseJumps (asked : Bool) (inside : Nat → List Jump) : ActionKind → List Jump
  | .stopRepeat => [.leave]
  | .continueRepeat => [.next]
  | .ifOnly => if asked then inside 0 else []
  | .ifElse => if asked then inside 0 ++ inside 1 else []
  | _ => []

mutual

/-- The jumps of a block and of the blocks below it that stand in no loop. -/
def Node.looseJumps (object : Json) : Node → List Jump
  | .mk tag arguments branches labels =>
    let asked := (slot tag (Argument.slots {} object arguments) 0).isOk
    let inside := Node.looseInside object branches
    match (Node.mk tag arguments branches labels).action? with
    | some kind => kind.looseJumps asked fun i => inside[i]?.getD []
    | none => []

def Node.looseAll (object : Json) : List Node → List Jump
  | [] => []
  | n :: rest => n.looseJumps object ++ Node.looseAll object rest

def Node.looseInside (object : Json) : List (List Node) → List (List Jump)
  | [] => []
  | branch :: rest => Node.looseAll object branch :: Node.looseInside object rest

end

theorem Node.looseInside_at (object : Json) (branches : List (List Node)) (i : Nat) :
    (Node.looseInside object branches)[i]?.getD []
      = Node.looseAll object (branches[i]?.getD []) := by
  induction branches generalizing i with
  | nil => rfl
  | cons branch rest ih =>
    cases i with
    | zero => rfl
    | succ i => simpa [Node.looseInside] using ih i

/-- The statements are tame and have the given free jumps. -/
def Stmt.Jumps (js : List Jump) (made : List Stmt) : Prop :=
  Stmt.tameAll made = true ∧ Stmt.freeAll made = js

theorem Stmt.jumps_append {js js' : List Jump} {as bs : List Stmt} (ha : Stmt.Jumps js as)
    (hb : Stmt.Jumps js' bs) : Stmt.Jumps (js ++ js') (as ++ bs) := by
  refine ⟨?_, ?_⟩
  · simp [ha.1, hb.1]
  · simp [ha.2, hb.2]

/-- The branch makes statements with the given free jumps in every scope of the object. -/
def Body.Jumps (b : Body) (object : Json) (js : List Jump) : Prop :=
  ∀ s : Scope, s.object = object → GivesOnly (Stmt.Jumps js) (b.make s)

theorem Body.tame_round {b : Body} {s : Scope} {js : List Jump} (h : b.Jumps s.object js) :
    GivesOnly (fun made => Stmt.tameAll made = true) (b.round s) := by
  refine givesOnly_bind (givesOnly_mapError (h s.inLoop rfl)) fun made hmade => ?_
  refine givesOnly_of_bind fun suspended _ => givesOnly_ok ?_
  have hyield : yieldNow.tame = true := rfl
  cases suspended with
  | true => exact hmade.1
  | false => simp [hmade.1, hyield]

theorem tame_of_order {e : Expr} (h : e.isOrder = true) :
    Text.opens isPlainStart (e.render 0) = true := by
  rw [Expr.render_zero]
  exact Expr.opens_order (by decide) h

/-- Orders are tame and have no jump that is free. -/
theorem orders_tame :
    Stmt.Orders (fun _ => True) (fun st => st.tame = true ∧ st.freeJumps = []) where
  run _ horder := ⟨tame_of_order horder, rfl⟩
  set _ horder _ _ := ⟨tame_of_order horder, rfl⟩
  raise _ horder _ _ := ⟨tame_of_order horder, rfl⟩
  back := ⟨rfl, rfl⟩

theorem Stmt.jumps_of_orders {made : List Stmt}
    (h : ∀ st ∈ made, st.tame = true ∧ st.freeJumps = []) : Stmt.Jumps [] made := by
  induction made with
  | nil => exact ⟨rfl, rfl⟩
  | cons s rest ih =>
    obtain ⟨hs, hrest⟩ := List.forall_mem_cons.mp h
    exact ⟨by simp [hs.1, (ih hrest).1], by simp [hs.2, (ih hrest).2]⟩

/-- A block of a known kind that is written out has the free jumps of its kind. -/
theorem jumps_compile {s : Scope} {tag : Json} {slots : List Slot} {bodies : List Body}
    {inside : Nat → List Jump} (hbodies : ∀ i, (bodyAt bodies i).Jumps s.object (inside i))
    (kind : ActionKind) :
    GivesOnly (Stmt.Jumps (kind.looseJumps (slot tag slots 0).isOk inside))
      (kind.compile s tag slots bodies) := by
  have hbody i := givesOnly_mapError (f := Obstacle.fault) (hbodies i s rfl)
  have hround i := Body.tame_round (hbodies i)
  cases kind
  case stopRepeat => exact givesOnly_ok ⟨rfl, rfl⟩
  case waitUntilTrue => exact givesOnly_of_bind fun condition _ => givesOnly_ok ⟨rfl, rfl⟩
  case continueRepeat =>
    refine givesOnly_ok ?_
    split <;> exact ⟨rfl, rfl⟩
  case ifOnly =>
    refine givesOnly_of_bind fun condition hcondition => ?_
    refine givesOnly_bind (hbody 0) fun body hbody => givesOnly_ok ?_
    rw [hcondition]
    exact ⟨by simp [hbody.1], by simp [hbody.2, ActionKind.looseJumps, Except.isOk, Except.toBool]⟩
  case ifElse =>
    refine givesOnly_of_bind fun condition hcondition => ?_
    refine givesOnly_bind (hbody 0) fun first hfirst => ?_
    refine givesOnly_bind (hbody 1) fun other hother => givesOnly_ok ?_
    rw [hcondition]
    exact ⟨by simp [hfirst.1, hother.1],
      by simp [hfirst.2, hother.2, ActionKind.looseJumps, Except.isOk, Except.toBool]⟩
  case repeatBasic =>
    refine givesOnly_of_bind fun bound _ => ?_
    refine givesOnly_bind (hround 0) fun body hbody => givesOnly_ok ?_
    exact ⟨by simp [hbody], rfl⟩
  case repeatInf =>
    refine givesOnly_bind (hround 0) fun body hbody => givesOnly_ok ?_
    exact ⟨by simp [hbody], rfl⟩
  case repeatWhileTrue =>
    refine givesOnly_of_bind fun condition _ => ?_
    refine givesOnly_bind (hround 0) fun body hbody => givesOnly_ok ?_
    exact ⟨by simp [hbody], rfl⟩
  all_goals
    intro made hmade
    exact Stmt.jumps_of_orders (orders_compile closed_trivial orders_tame (fun _ _ _ _ => trivial) s
      bodies _ rfl (fun _ _ _ => trivial) (fun _ _ _ _ => trivial) made hmade)

/-- A block of a known kind that is skipped has no loose jump: a conditional is skipped only if its
condition does not resolve. -/
theorem looseJumps_of_failure {s : Scope} {tag : Json} {slots : List Slot} {bodies : List Body}
    {kind : ActionKind} {f : Failure} (h : kind.compile s tag slots bodies = .error (.failure f))
    (inside : Nat → List Jump) : kind.looseJumps (slot tag slots 0).isOk inside = [] := by
  have hslot : FailsOnly (fun _ => (slot tag slots 0).isOk = false) (slot tag slots 0) := by
    intro o ho
    rw [ho]
    cases o <;> trivial
  have hfaults {α : Type} (x : Except Fault α) :
      FailsOnly (fun _ => (slot tag slots 0).isOk = false) (x.mapError .fault) :=
    errsOnly_mapError fun _ _ => trivial
  cases kind with
  | stopRepeat => cases h
  | continueRepeat => cases h
  | ifOnly =>
    have hnot : (slot tag slots 0).isOk = false :=
      errsOnly_bind hslot (fun condition => errsOnly_bind (hfaults _) fun _ => errsOnly_ok _) _ h
    simp [ActionKind.looseJumps, hnot]
  | ifElse =>
    have hnot : (slot tag slots 0).isOk = false :=
      errsOnly_bind hslot (fun condition => errsOnly_bind (hfaults _) fun _ =>
        errsOnly_bind (hfaults _) fun _ => errsOnly_ok _) _ h
    simp [ActionKind.looseJumps, hnot]
  | _ => rfl

theorem Node.looseJumps_eq (object : Json) (n : Node) :
    n.looseJumps object = n.action?.elim [] fun kind =>
      kind.looseJumps (slot n.tag (Argument.slots {} object n.arguments) 0).isOk
        fun i => Node.looseAll object (n.branches[i]?.getD []) := by
  obtain ⟨tag, arguments, branches, labels⟩ := n
  rw [Node.looseJumps]
  simp only [Node.looseInside_at]
  cases (Node.mk tag arguments branches labels).action? <;> rfl

/-- A node becomes statements whose free jumps are its loose ones, if its branches do. -/
theorem jumps_node {n : Node} {s : Scope}
    (hbranches : ∀ i : Nat, (bodyAt (Node.bodies {} n.branches) i).Jumps s.object
      (Node.looseAll s.object (n.branches[i]?.getD []))) :
    GivesOnly (Stmt.Jumps (n.looseJumps s.object)) (n.actions {} s) := by
  intro made h
  rw [Node.looseJumps_eq]
  rcases Node.actions_cases h with hmade | ⟨hnone, rfl⟩ | ⟨f, hfails, rfl⟩
  · rcases Node.attempt_cases hmade with ⟨kind, hkind, hmade⟩ | ⟨id, hnone, -, hmade⟩
    · rw [hkind]
      exact jumps_compile hbranches kind made hmade.symm
    · obtain ⟨e, he, hmade⟩ := ok_of_bind_ok hmade.symm
      cases hmade
      obtain ⟨arguments, -, he⟩ := ok_of_bind_ok he
      obtain ⟨name, -, he⟩ := ok_of_bind_ok he
      cases he
      rw [hnone]
      exact ⟨rfl, rfl⟩
  · have hkind : n.action? = none := by
      unfold Node.attempt? at hnone
      simp only at hnone
      split at hnone
      · cases hnone
      · cases hnone
      · cases hnone
      · assumption
    rw [hkind]
    exact ⟨rfl, rfl⟩
  · refine ⟨rfl, ?_⟩
    rcases Node.attempt_cases hfails with ⟨kind, hkind, hfails⟩ | ⟨id, hnone, -⟩
    · have hloose := looseJumps_of_failure hfails.symm
        fun i => Node.looseAll s.object (n.branches[i]?.getD [])
      rw [hkind]
      exact hloose.symm
    · rw [hnone]
      rfl

mutual

theorem jumps_actions : (n : Node) → ∀ s : Scope,
    GivesOnly (Stmt.Jumps (n.looseJumps s.object)) (n.actions {} s)
  | .mk _ _ branches _ => fun s => jumps_node fun i => jumps_bodies branches i s.object

theorem jumps_actionsAll : (body : List Node) → ∀ s : Scope,
    GivesOnly (Stmt.Jumps (Node.looseAll s.object body)) (Node.actionsAll {} body s)
  | [] => fun _ => givesOnly_ok ⟨rfl, rfl⟩
  | n :: rest => by
    intro s
    refine givesOnly_bind (jumps_actions n s) fun first hfirst => ?_
    refine givesOnly_bind (jumps_actionsAll rest s) fun others hothers => givesOnly_ok ?_
    exact Stmt.jumps_append hfirst hothers

theorem jumps_bodies : (branches : List (List Node)) → ∀ (i : Nat) (object : Json),
    (bodyAt (Node.bodies {} branches) i).Jumps object
      (Node.looseAll object (branches[i]?.getD []))
  | [] => fun _ _ _ _ => givesOnly_ok ⟨rfl, rfl⟩
  | branch :: rest => fun i object => by
    cases i with
    | zero =>
      rintro s rfl
      exact jumps_actionsAll branch s
    | succ i => exact jumps_bodies rest i object

end

/-! ## Stray jumps of a declaration -/

/-- Between whatever blocks are open, the stray jumps of the lines are the given ones. -/
def Strays (js : List Jump) (ls : List Line) : Prop :=
  ∀ opened rest, strayJumps opened (ls ++ rest) = Stmt.strayIn opened js ++ strayJumps opened rest

theorem strays_plain {l : Line} (h : l.role = .plain) : Strays [] [l] := by
  intro opened rest
  rw [List.singleton_append, Stmt.stray_plain _ _ h, Stmt.strayIn]
  simp

theorem strays_append {js js' : List Jump} {ls ms : List Line} (hls : Strays js ls)
    (hms : Strays js' ms) : Strays (js ++ js') (ls ++ ms) := by
  intro opened rest
  rw [List.append_assoc, hls, hms, Stmt.strayIn_append, List.append_assoc]

theorem strays_plainAll {ls : List Line} (h : ∀ l ∈ ls, l.role = .plain) : Strays [] ls := by
  induction ls with
  | nil =>
    intro opened rest
    simp [Stmt.strayIn]
  | cons l more ih =>
    obtain ⟨hl, hmore⟩ := List.forall_mem_cons.mp h
    exact strays_append (strays_plain hl) (ih hmore)

/-- A block other than a loop, from the line that opens it to the one that closes it. -/
theorem strays_block {js : List Jump} {first last : Line} {ls : List Line} (h : Strays js ls)
    (hfirst : first.role = .block) (hlast : last.role = .close) :
    Strays js (first :: ls ++ [last]) := by
  intro opened rest
  rw [List.append_assoc, List.cons_append, strayJumps, hfirst]
  simp only
  rw [h, List.singleton_append, strayJumps, hlast, Stmt.strayIn_block]
  rfl

theorem strays_body {made : List Stmt} {js : List Jump} (h : Stmt.Jumps js made) (depth : Int) :
    Strays js (Stmt.linesAll depth made) := by
  intro opened rest
  rw [Stmt.stray_all h.1, h.2]

theorem role_result (r : Except Failure Expr) : (resultLine r).role = .plain := by
  cases r with
  | ok e => exact role_of_code rfl 1
  | error f => exact role_of_comment _ 1

/-- What is returned after the statements is no jump out of a round. -/
theorem strays_tree {b : FunctionTree} {js : List Jump} (h : Stmt.Jumps js b.statements) :
    Strays js b.lines := by
  have hresult : Strays [] (b.result.map resultLine).toList := by
    apply strays_plainAll
    intro l hl
    rw [Option.mem_toList] at hl
    obtain ⟨r, -, rfl⟩ := Option.map_eq_some_iff.mp hl
    exact role_result r
  have hall := strays_append (strays_body h 1) hresult
  rwa [List.append_nil] at hall

theorem Node.looseAll_append (object : Json) (as bs : List Node) :
    Node.looseAll object (as ++ bs) = Node.looseAll object as ++ Node.looseAll object bs := by
  induction as with
  | nil => rfl
  | cons n rest ih => simp [Node.looseAll, ih]

/-- A block that is no action jumps nowhere. -/
theorem looseJumps_of_not_action {n : Node} (h : n.isAction {} = .ok false) (object : Json) :
    n.looseJumps object = [] := by
  have hkind : n.action? = none := by
    obtain ⟨-, -, h⟩ := ok_of_bind_ok h
    unfold Node.action?
    cases htag : n.tag with
    | str t =>
      rw [htag] at h
      simp only [pure, Except.pure, Except.ok.injEq, Bool.or_eq_false_iff] at h
      exact Option.isSome_eq_false_iff.mp h.1.2 |> Option.isNone_iff_eq_none.mp
    | _ => rfl
  rw [Node.looseJumps_eq, hkind]
  rfl

theorem jumps_functionTree {width : Nat} (f : Function) (object : Json) :
    GivesOnly (fun b => Stmt.Jumps (Node.looseAll object f.body) b.statements)
      (({ width } : Style).functionTree f { object }) := by
  have hbody := jumps_actionsAll f.body { object }
  unfold Style.functionTree
  split
  · rename_i last _ hlast
    refine givesOnly_bind (P := fun _ => True) (fun _ _ => trivial) fun hasValue _ => ?_
    refine givesOnly_of_bind fun isAction haction => ?_
    split
    · rename_i hvalue
      -- the last block is left out of the statements, and it is no action
      have hloose : Node.looseAll object f.body = Node.looseAll object f.body.dropLast := by
        have hnot : isAction = false := by
          cases isAction with
          | false => rfl
          | true => simp at hvalue
        have hnone := looseJumps_of_not_action (hnot ▸ haction) object
        have hsplit := Node.looseAll_append object f.body.dropLast [last]
        rw [List.dropLast_append_getLast? last hlast] at hsplit
        simpa [Node.looseAll, hnone] using hsplit
      rw [hloose]
      refine givesOnly_bind (jumps_actionsAll f.body.dropLast { object }) fun made hmade => ?_
      exact givesOnly_of_bind fun _ _ => givesOnly_ok hmade
    · refine givesOnly_bind hbody fun made hmade => ?_
      split
      · exact givesOnly_ok hmade
      · exact givesOnly_of_bind fun _ _ => givesOnly_ok hmade
  · exact givesOnly_bind hbody fun made hmade => givesOnly_ok hmade

theorem strays_function {width : Nat} (f : Function) (object : Json) :
    GivesOnly (Strays (Node.looseAll object f.body))
      (({ width } : Style).functionLines object f) := by
  refine givesOnly_of_bind fun name _ => ?_
  refine givesOnly_bind (jumps_functionTree f object) fun tree htree => givesOnly_ok ?_
  have hlets : Strays [] (f.locals.map fun n => (⟨1, "let " ++ n ++ " = 0;"⟩ : Line)) := by
    apply strays_plainAll
    intro l hl
    obtain ⟨n, -, rfl⟩ := List.mem_map.mp hl
    have hline := role_of_code (t := "let " ++ n ++ " = 0") rfl 1
    rwa [List.append_assoc] at hline
  have hhead : Line.role ⟨0, "Entry.func." ++ name ++ " = async function ("
      ++ Text.joined ", " ("self" :: f.params) ++ ") \x7b"⟩ = .block := by
    have hline := role_of_head (t := "Entry.func." ++ name ++ " = async function ("
      ++ Text.joined ", " ("self" :: f.params) ++ ") ") rfl rfl 0
    rwa [List.append_assoc] at hline
  exact strays_block (strays_append hlets (strays_tree htree)) hhead rfl

/-- The blocks of a declaration that are written out. A handler whose event is not known, or whose
condition cannot be built, leaves a comment. -/
def Declaration.writtenBody : Declaration → List Node
  | .function f => f.body
  | .handler h =>
    match (binding? h.event defaultBindings).bind (·.guard.condition? h.arguments) with
    | some _ => h.body
    | none => []

theorem strays_handler {width : Nat} (h : Handler) (object : Json) :
    GivesOnly (Strays (Node.looseAll object (Declaration.handler h).writtenBody))
      (({ width } : Style).handlerLines object h) := by
  unfold Style.handlerLines
  simp only [Declaration.writtenBody]
  cases binding? h.event defaultBindings with
  | none =>
    have hline := role_of_comment (Text.ofString "TODO: unsupported event '" ++ h.event ++ "'") 0
    exact givesOnly_ok (strays_plain hline)
  | some b =>
    simp only [Option.bind_some]
    cases b.guard.condition? h.arguments with
    | none =>
      have hline := role_of_comment
        (Text.ofString "skipped handler '" ++ h.event ++ "': missing event argument") 0
      exact givesOnly_ok (strays_plain hline)
    | some condition =>
      refine givesOnly_bind (jumps_actionsAll h.body { object }) fun made hmade => givesOnly_ok ?_
      have hls := strays_body hmade (1 + b.extraDepth)
      have hhead : Line.role ⟨0, "self.on(" ++ b.event.quoted ++ ", async (" ++ b.param
          ++ ") => \x7b"⟩ = .block := by
        have hline := role_of_head (t := "self.on(" ++ b.event.quoted ++ ", async (" ++ b.param
          ++ ") => ") rfl rfl 0
        rwa [List.append_assoc] at hline
      have hif : Line.role ⟨1, "if (" ++ condition ++ ") \x7b"⟩ = .block := by
        have hline := role_of_head (t := "if (" ++ condition ++ ") ") rfl rfl 1
        rwa [List.append_assoc] at hline
      have hend : Line.role ⟨1, "\x7d"⟩ = .close := rfl
      refine strays_block ?_ hhead rfl
      by_cases hempty : condition.isEmpty = true
      · simpa [hempty] using hls
      · simpa [hempty] using strays_block hls hif hend

/-- The lines of a declaration are those that its text is made of, and its stray jumps are those of
its blocks that stand in no loop. -/
theorem strays_text {width : Nat} {object : Json} {d : Declaration} {t : Text}
    (h : d.text { width } object = .ok t) :
    ∃ ls, d.lines { width } object = .ok ls ∧ renderLines width ls = t ∧
      strayJumps [] ls = Node.looseAll object d.writtenBody := by
  have hstrays : GivesOnly (Strays (Node.looseAll object d.writtenBody))
      (d.lines { width } object) := by
    cases d with
    | handler handler => exact strays_handler handler object
    | function f => exact strays_function f object
  rw [text_eq] at h
  cases hlines : d.lines { width } object with
  | error e =>
    rw [hlines] at h
    cases h
  | ok ls =>
    rw [hlines] at h
    cases h
    refine ⟨ls, rfl, rfl, ?_⟩
    simpa [Stmt.strayIn, strayJumps] using hstrays ls hlines [] []

/-- What the lines of a declaration have to do with it. -/
structure Declaration.IsWrittenAs (width : Nat) (object : Json) (d : Declaration)
    (ls : List Line) : Prop where
  lines : d.lines { width } object = .ok ls
  jumps : strayJumps [] ls = Node.looseAll object d.writtenBody

theorem lines_of_texts {width : Nat} {object : Json} {ds : List Declaration} {texts : List Text}
    (h : List.Forall₂ (fun d t => d.text { width } object = .ok t) ds texts) :
    ∃ parts, parts.map (renderLines width) = texts ∧
      List.Forall₂ (Declaration.IsWrittenAs width object) ds parts := by
  induction h with
  | nil => exact ⟨[], rfl, .nil⟩
  | cons hd _ ih =>
    obtain ⟨parts, rfl, hparts⟩ := ih
    obtain ⟨ls, hls, rfl, hjumps⟩ := strays_text hd
    exact ⟨ls :: parts, rfl, .cons ⟨hls, hjumps⟩ hparts⟩

theorem no_stray_iff {width : Nat} {object : Json} {ds : List Declaration}
    {parts : List (List Line)}
    (h : List.Forall₂ (Declaration.IsWrittenAs width object) ds parts) :
    (∀ ls ∈ parts, strayJumps [] ls = []) ↔ ∀ d ∈ ds, Node.looseAll object d.writtenBody = [] := by
  induction h with
  | nil => simp
  | cons hd _ ih => rw [List.forall_mem_cons, List.forall_mem_cons, ih, hd.jumps]

/-- The source of a program is made of lines, declaration by declaration, and among the lines of a
declaration the jumps that stand inside no loop are, one by one and in their order, those of its
blocks that stand in no loop. So all jumps of a source are inside loops if and only if no block that
jumps stands outside one. -/
theorem stray_jumps_are_those_of_loose_blocks (width : Nat) (object : Json) (p : Program)
    (source : Text) (h : ({ width } : Style).source object p = .ok source) :
    ∃ parts : List (List Line),
      source = Text.joined "\n" (heading object :: parts.map (renderLines width)) ∧
      List.Forall₂ (Declaration.IsWrittenAs width object) p.inOrder parts ∧
      ((∀ ls ∈ parts, strayJumps [] ls = []) ↔
        ∀ d ∈ p, Node.looseAll object d.writtenBody = []) := by
  obtain ⟨texts, htexts, h⟩ := ok_of_bind_ok h
  cases h
  obtain ⟨parts, rfl, hparts⟩ := lines_of_texts (texts_of_parts htexts)
  refine ⟨parts, rfl, hparts, ?_⟩
  rw [no_stray_iff hparts]
  simp only [Program.mem_inOrder]

/-- A handler with jumps in a loop, in a condition that is in a loop, and after the loop in a
condition. -/
def jumpScript : Json :=
  let block (tag : Text) (params : List Json) (branches : List Json) : Json :=
    .obj [("type", .str tag), ("params", .arr params), ("statements", .arr branches)]
  .arr [.arr [block "when_run_button_click" [] [],
    block "repeat_inf" [] [.arr [block "_if" [.bool true] [.arr [block "continue_repeat" [] []]],
      block "stop_repeat" [] []]],
    block "_if" [.bool true] [.arr [block "stop_repeat" [] []]]]]

theorem one_jump_of_three_is_stray :
    ∃ d source, Program.build (.all 0) jumpScript .null .null = .ok [d] ∧
      ({} : Style).source .null [d] = .ok source ∧
      ∃ ls, source = Text.joined "\n" [heading .null, renderLines 2 ls] ∧
        d.lines {} .null = .ok ls ∧ strayJumps [] ls = [.leave] := by
  obtain ⟨d, source, hbuild, hsource, horder, hloose⟩ : ∃ d source,
      Program.build (.all 0) jumpScript .null .null = .ok [d] ∧
      ({} : Style).source .null [d] = .ok source ∧ Program.inOrder [d] = [d] ∧
      Node.looseAll .null d.writtenBody = [.leave] :=
    ⟨_, _, rfl, rfl, rfl, rfl⟩
  obtain ⟨parts, rfl, hparts, -⟩ :=
    stray_jumps_are_those_of_loose_blocks 2 .null [d] source hsource
  rw [horder] at hparts
  cases hparts with
  | cons hd hnil =>
    cases hnil
    exact ⟨d, _, hbuild, hsource, _, rfl, hd.lines, hd.jumps.trans hloose⟩

/-- A jump directly in a handler is written there, inside no loop. -/
theorem loose_jump_is_written :
    let script : Json := .arr [.arr [.obj [("type", .str "when_run_button_click")],
      .obj [("type", .str "stop_repeat")]]]
    ∃ d, Program.build (.all 0) script .null .null = .ok [d] ∧
      d.text {} .null = .ok "self.on(\"start\", async () => \x7b\n  break;\n\x7d);\n" ∧
      ∃ ls, d.lines {} .null = .ok ls ∧ strayJumps [] ls = [.leave] :=
  ⟨_, rfl, rfl, _, rfl, rfl⟩

end BlockScript
