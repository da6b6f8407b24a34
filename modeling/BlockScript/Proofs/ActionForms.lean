-- The forms of statements. What the orders to the runtime pass, and what every form
-- of statement keeps, holds of the statements of every block, as far as it holds of
-- the names and the comments that stand for the blocks.
import BlockScript.Proofs.Placeholders
import BlockScript.Proofs.ValueForms

namespace BlockScript

/-! ## Orders -/

/-- A call on the object or on the runtime, one that is waited for, or something of theirs or a
local variable. -/
@[simp]
def Expr.isOrder : Expr → Bool
  | .name t => t = Text.ofString "self" || t = Text.ofString "Entry" || Text.opens (· == 'v') t
  | .member e _ | .call e _ => e.isOrder
  | .await _ => true
  | _ => false

@[simp] theorem Expr.isOrder_method (e : Expr) (field : Text) (arguments : List Expr) :
    (e.method field arguments).isOrder = e.isOrder :=
  rfl

theorem isOrder_objectNamed (object target : Json) :
    (objectNamed object target).isOrder = true := by
  unfold objectNamed
  split <;> rfl

theorem Expr.fit_cases (e : Expr) (t : Text) (place : Int) :
    e.fit t place = "(" ++ t ++ ")" ∨ e.fit t place = t := by
  unfold fit wrap
  split
  · split
    · exact .inl rfl
    · exact .inr rfl
  · exact .inr rfl

theorem Text.opens_append {p : Char → Bool} {t : Text} (h : Text.opens p t = true) (rest : Text) :
    Text.opens p (t ++ rest) = true := by
  match t with
  | .char c :: more => exact h

/-- An order starts with one of the words `self`, `Entry` and `await`, with a local variable or
with a parenthesis. -/
theorem Expr.opens_order {p : Char → Bool} (hp : ['s', 'E', 'a', 'v', '('].all p = true)
    {e : Expr} (h : e.isOrder = true) : Text.opens p e.body = true := by
  have hall := List.all_eq_true.mp hp
  have hfit (e : Expr) (he : Text.opens p e.body = true) (place : Int) :
      Text.opens p (e.fit e.body place) = true := by
    rcases fit_cases e e.body place with heq | heq <;> rw [heq]
    · exact hall '(' (by decide)
    · exact he
  match e with
  | .name t =>
    simp only [isOrder, Bool.or_eq_true, decide_eq_true_eq] at h
    rcases h with (rfl | rfl) | h
    · exact hall 's' (by decide)
    · exact hall 'E' (by decide)
    · match t with
      | .char c :: rest =>
        have hc : c = 'v' := by simpa [Text.opens] using h
        subst hc
        exact hall 'v' (by decide)
  | .member e field =>
    rw [body, List.append_assoc]
    exact Text.opens_append (hfit e (opens_order hp h) _) _
  | .call callee arguments =>
    simp only [body, List.append_assoc]
    exact Text.opens_append (hfit callee (opens_order hp h) _) _
  | .await _ => exact hall 'a' (by decide)

/-- A name starts as its family does, whatever the id is. -/
theorem opens_make {p : Char → Bool} {c : Char} (hc : p c = true) {id : Json} {drawn : Nat}
    {name : Text} (h : Name.make [.char c] id drawn = .ok name) : Text.opens p name = true := by
  unfold Name.make at h
  split at h
  · repeat' split at h
    · cases h
      exact hc
    · cases h
      exact hc
    · obtain ⟨t, -, h⟩ := ok_of_bind_ok h
      cases h
      exact hc
  · cases h
    exact hc

/-- Orders pass `S` if their expressions pass `Q`: what is run, what is set or raised, and the end
of the script. -/
structure Stmt.Orders (Q : Expr → Prop) (S : Stmt → Prop) : Prop where
  run {e : Expr} : Q e → e.isOrder = true → S (.run e)
  set {target e : Expr} : Q target → target.isOrder = true → target.isCallee = true → Q e →
    S (.set target e)
  raise {target e : Expr} : Q target → target.isOrder = true → target.isCallee = true → Q e →
    S (.raise target e)
  back : S (.jump .back)

/-- Orders pass `S`, and so does each form of statement over parts that do. A loop that counts is at
the lowest level or above it. -/
structure Stmt.Closed (lowest : Int) (Q : Expr → Prop) (S : Stmt → Prop) : Prop
    extends Stmt.Orders Q S where
  yield : S yieldNow
  leave : S (.jump .leave)
  next : S (.jump .next)
  choose {condition : Expr} {body : List Stmt} {other : Option (List Stmt)} : Q condition →
    (∀ st ∈ body, S st) → (∀ body ∈ other, ∀ st ∈ body, S st) → S (.choose condition body other)
  count {level : Int} {bound : Expr} {body : List Stmt} : lowest ≤ level → Q bound →
    (∀ st ∈ body, S st) → S (.count level bound body)
  loop {condition : Expr} {body : List Stmt} : Q condition → (∀ st ∈ body, S st) →
    S (.loop condition body)

/-- Every statement that the computation gives passes `S`. -/
abbrev Writes (S : Stmt → Prop) {ε : Type} (x : Except ε (List Stmt)) : Prop :=
  GivesOnly (fun made => ∀ st ∈ made, S st) x

/-! ## Kinds of actions -/

/-- The actions that are orders alone: without branches, loops and jumps in loops. -/
def ActionKind.isPlain : ActionKind → Bool
  | .ifOnly | .ifElse | .repeatBasic | .repeatInf | .repeatWhileTrue | .waitUntilTrue
  | .stopRepeat | .continueRepeat => false
  | _ => true

section Plain

variable {Q : Expr → Prop} {S : Stmt → Prop} (hQ : Expr.Closed Q) (hS : Stmt.Orders Q S)
  {tag : Json} {slots : List Slot}

include hQ

theorem closed_slotKey (i : Nat) : GivesOnly Q (slotKey tag slots i) := by
  unfold slotKey
  split
  · exact givesOnly_error _
  · exact givesOnly_ok (hQ.quoted _)

include hS

theorem order_method {e : Expr} (he : Q e) (hcallee : e.isCallee = true)
    (horder : e.isOrder = true) {w : String} (hw : w ∈ runtimeWords) {arguments : List Expr}
    (harguments : ∀ a ∈ arguments, Q a) : S (.run (e.method w arguments)) :=
  hS.run (hQ.method he hcallee hw harguments) horder

theorem order_onSelf {w : String} (hw : w ∈ runtimeWords) {arguments : List Expr}
    (harguments : ∀ a ∈ arguments, Q a) : ∀ st ∈ onSelf w arguments, S st :=
  List.forall_mem_singleton.mpr (order_method hQ hS hQ.self rfl rfl hw harguments)

theorem order_onEntry {w : String} (hw : w ∈ runtimeWords) {arguments : List Expr}
    (harguments : ∀ a ∈ arguments, Q a) : ∀ st ∈ onEntry w arguments, S st :=
  List.forall_mem_singleton.mpr (order_method hQ hS hQ.entry rfl rfl hw harguments)

theorem order_waitSelf (hwait : ∀ e, Q e → Q (.await e)) {w : String} (hw : w ∈ runtimeWords)
    {arguments : List Expr} (harguments : ∀ a ∈ arguments, Q a) :
    ∀ st ∈ waitSelf w arguments, S st :=
  List.forall_mem_singleton.mpr (hS.run (hwait _ (hQ.method hQ.self rfl hw harguments)) rfl)

theorem order_waitEntry (hwait : ∀ e, Q e → Q (.await e)) {w : String} (hw : w ∈ runtimeWords)
    {arguments : List Expr} (harguments : ∀ a ∈ arguments, Q a) :
    ∀ st ∈ waitEntry w arguments, S st :=
  List.forall_mem_singleton.mpr (hS.run (hwait _ (hQ.method hQ.entry rfl hw harguments)) rfl)

theorem order_stopScripts (slots : List Slot) : ∀ st ∈ stopScripts slots, S st := by
  have hback : ∀ st ∈ [Stmt.jump .back], S st := List.forall_mem_singleton.mpr hS.back
  unfold stopScripts
  split_ifs
  · exact List.forall_mem_append.mpr
      ⟨order_onEntry hQ hS (w := "stop") (by decide) (by simp), hback⟩
  · exact List.forall_mem_append.mpr
      ⟨order_onSelf hQ hS (w := "stopScripts") (by decide) (by simp), hback⟩
  · exact order_onSelf hQ hS (w := "stopOtherScripts") (by decide) (by simp)
  · exact hback

omit hQ in
theorem order_setLocal (hslots : ∀ s ∈ slots, GivesOnly Q s.made)
    (hlocal : Name.isStable (slotLiteral slots 0) = true →
      ∀ name, Name.ofLocal (slotLiteral slots 0) = .ok name → Q (.name name)) :
    Writes S (setLocal tag slots) := by
  refine givesOnly_bind (givesOnly_slot hslots 1) fun e he => ?_
  simp only
  split
  · rename_i hstable
    refine givesOnly_of_bind fun name hname => givesOnly_ok ?_
    have hname := named_eq_ok hname
    have hopens : Text.opens (· == 'v') name = true := opens_make rfl hname
    exact List.forall_mem_singleton.mpr
      (hS.set (hlocal hstable name hname) (by simp [hopens]) rfl he)
  · exact givesOnly_error _

/-- The statements of an action that is orders alone, if it may wait and may set its variable. -/
theorem orders_compile (hslots : ∀ s ∈ slots, GivesOnly Q s.made) (s : Scope) (bodies : List Body)
    (kind : ActionKind) (hplain : kind.isPlain = true)
    (hwait : kind.suspends = true → ∀ e, Q e → Q (.await e))
    (hlocal : kind = .setFuncVariable → Name.isStable (slotLiteral slots 0) = true →
      ∀ name, Name.ofLocal (slotLiteral slots 0) = .ok name → Q (.name name)) :
    Writes S (kind.compile s tag slots bodies) := by
  have hslot : ∀ i, GivesOnly Q (slot tag slots i) := givesOnly_slot hslots
  have hkey : ∀ i, GivesOnly Q (slotKey tag slots i) := closed_slotKey hQ
  have hself := @order_onSelf _ _ hQ hS
  have hentry := @order_onEntry _ _ hQ hS
  have hproperty {w : String} (hw : w ∈ runtimeWords) : Q (selfProperty w) :=
    hQ.member hQ.self rfl hw
  have hsound : Q (.member .entry "sound") := hQ.member hQ.entry rfl (w := "sound") (by decide)
  have hvolume : Q soundVolume := hQ.member hsound rfl (w := "volume") (by decide)
  have hlist {e : Expr} (he : Q e) : Q (Expr.entry.method "list" [e]) :=
    hQ.method hQ.entry rfl (w := "list") (by decide) (by simpa using he)
  have hspeech (b : Bool) : (if b = true then "think" else "say") ∈ runtimeWords := by
    cases b <;> decide
  cases kind
  case setFuncVariable => exact order_setLocal hS hslots (hlocal rfl)
  case stopObject => exact givesOnly_ok (order_stopScripts hQ hS slots)
  case createClone =>
    refine givesOnly_ok (List.forall_mem_singleton.mpr ?_)
    exact order_method hQ hS (hQ.objectNamed _ _) (isCallee_objectNamed _ _)
      (isOrder_objectNamed _ _) (w := "clone") (by decide) (by simp)
  case deleteClone =>
    refine givesOnly_ok (List.forall_mem_append.mpr ⟨?_, List.forall_mem_singleton.mpr hS.back⟩)
    exact hself (w := "deleteClone") (by decide) (by simp)
  case changeToNextShape =>
    refine givesOnly_ok ?_
    split
    · exact hself (w := "prevPicture") (by decide) (by simp)
    · exact hself (w := "nextPicture") (by decide) (by simp)
  case dialog =>
    refine givesOnly_bind (hslot 0) fun e he => givesOnly_ok (hself (hspeech _) (by simpa using he))
  case dialogTime =>
    refine givesOnly_bind (hslot 0) fun e he => ?_
    refine givesOnly_bind (hslot 1) fun time htime => givesOnly_ok ?_
    exact order_waitSelf hQ hS (hwait rfl) (hspeech _) (by simp [he, htime])
  case soundSilentAll =>
    refine givesOnly_ok (List.forall_mem_singleton.mpr ?_)
    exact order_method hQ hS hsound rfl rfl (w := "stopAll") (by decide) (by simp)
  case ifOnly | ifElse | repeatBasic | repeatInf | repeatWhileTrue | waitUntilTrue | stopRepeat
      | continueRepeat => cases hplain
  -- the other kinds take their slots and keys one after the other
  all_goals
    simp only [ActionKind.compile]
    repeat' first
      | refine givesOnly_bind (hslot _) fun _ _ => ?_
      | refine givesOnly_bind (hkey _) fun _ _ => ?_
      | refine givesOnly_ok ?_
    first
      | exact hself (by decide) (by simp [*])
      | exact hentry (by decide) (by simp [*])
      | exact List.forall_mem_singleton.mpr (hS.set (hproperty (by decide)) rfl rfl ‹_›)
      | exact List.forall_mem_singleton.mpr (hS.raise (hproperty (by decide)) rfl rfl ‹_›)
      | exact List.forall_mem_singleton.mpr (hS.set (hproperty (by decide)) rfl rfl (hQ.truth _))
      | exact List.forall_mem_singleton.mpr (hS.set hvolume rfl rfl ‹_›)
      | exact List.forall_mem_singleton.mpr (hS.raise hvolume rfl rfl ‹_›)
      | exact order_waitSelf hQ hS (hwait rfl) (by decide) (by simp [*])
      | exact order_waitEntry hQ hS (hwait rfl) (by decide) (by simp [*])
      | exact List.forall_mem_singleton.mpr
          (order_method hQ hS hQ.projectVariables rfl rfl (by decide) (by simp [*]))
      | exact List.forall_mem_singleton.mpr
          (order_method hQ hS (hlist ‹_›) rfl rfl (by decide) (by simp [*]))

end Plain

section Forms

variable {lowest : Int} {Q : Expr → Prop} {S : Stmt → Prop} (hQ : Expr.Closed Q)
  (hS : Stmt.Closed lowest Q S) {bodies : List Body}

/-- The statements of a branch pass in every scope from the lowest level on. -/
def Body.Passes (lowest : Int) (S : Stmt → Prop) (b : Body) : Prop :=
  ∀ s : Scope, lowest ≤ s.level → Writes S (b.make s)

include hS

theorem closed_round {b : Body} (hb : b.Passes lowest S) {s : Scope}
    (hlevel : lowest ≤ s.inLoop.level) : Writes S (b.round s) := by
  refine givesOnly_bind (givesOnly_mapError (hb s.inLoop hlevel)) fun made hmade => ?_
  refine givesOnly_of_bind fun suspended _ => givesOnly_ok ?_
  split
  · exact hmade
  · exact List.forall_mem_append.mpr ⟨hmade, List.forall_mem_singleton.mpr hS.yield⟩

include hQ

/-- The statements of an action of a known kind. -/
theorem closed_compileAction {tag : Json} {slots : List Slot}
    (hslots : ∀ s ∈ slots, GivesOnly Q s.made) {s : Scope} (hlevel : lowest ≤ s.level)
    (hbodies : ∀ i, (bodyAt bodies i).Passes lowest S) (kind : ActionKind)
    (hwait : kind.suspends = true → ∀ e, Q e → Q (.await e))
    (hlocal : kind = .setFuncVariable → Name.isStable (slotLiteral slots 0) = true →
      ∀ name, Name.ofLocal (slotLiteral slots 0) = .ok name → Q (.name name)) :
    Writes S (kind.compile s tag slots bodies) := by
  have hslot : ∀ i, GivesOnly Q (slot tag slots i) := givesOnly_slot hslots
  have hbody i : Writes S ((bodyAt bodies i).statements s) :=
    givesOnly_mapError (hbodies i s hlevel)
  have hround i : Writes S ((bodyAt bodies i).round s) :=
    closed_round hS (hbodies i) (Int.le_add_one hlevel)
  cases kind
  case ifOnly =>
    refine givesOnly_bind (hslot 0) fun condition hcondition => ?_
    refine givesOnly_bind (hbody 0) fun body hbody => givesOnly_ok ?_
    exact List.forall_mem_singleton.mpr (hS.choose hcondition hbody (by simp))
  case ifElse =>
    refine givesOnly_bind (hslot 0) fun condition hcondition => ?_
    refine givesOnly_bind (hbody 0) fun first hfirst => ?_
    refine givesOnly_bind (hbody 1) fun other hother => givesOnly_ok ?_
    exact List.forall_mem_singleton.mpr (hS.choose hcondition hfirst (by simpa using hother))
  case repeatBasic =>
    refine givesOnly_bind (hslot 0) fun bound hbound => ?_
    refine givesOnly_bind (hround 0) fun body hbody => givesOnly_ok ?_
    exact List.forall_mem_singleton.mpr (hS.count hlevel hbound hbody)
  case repeatInf =>
    refine givesOnly_bind (hround 0) fun body hbody => givesOnly_ok ?_
    exact List.forall_mem_singleton.mpr (hS.loop (hQ.truth true) hbody)
  case repeatWhileTrue =>
    refine givesOnly_bind (hslot 0) fun condition hcondition => ?_
    refine givesOnly_bind (hround 0) fun body hbody => givesOnly_ok ?_
    refine List.forall_mem_singleton.mpr (hS.loop ?_ hbody)
    split
    · exact hcondition
    · exact hQ.not hcondition
  case waitUntilTrue =>
    refine givesOnly_bind (hslot 0) fun condition hcondition => givesOnly_ok ?_
    refine List.forall_mem_singleton.mpr (hS.loop (hQ.not hcondition) ?_)
    exact List.forall_mem_singleton.mpr hS.yield
  case stopRepeat => exact givesOnly_ok (List.forall_mem_singleton.mpr hS.leave)
  case continueRepeat =>
    refine givesOnly_ok ?_
    split
    · exact List.forall_mem_cons.mpr ⟨hS.yield, List.forall_mem_singleton.mpr hS.next⟩
    · exact List.forall_mem_singleton.mpr hS.next
  all_goals exact orders_compile hQ hS.toOrders hslots s bodies _ rfl hwait hlocal

end Forms

/-! ## Nodes -/

/-- What stands for the nodes passes: by name, where they wait, and as a comment. -/
structure NodesPass (Q : Expr → Prop) (S : Stmt → Prop) (nodes : List Node) : Prop
    extends NamedPass Q nodes where
  waits : ∀ n ∈ nodes, n.suspends = true → ∀ e, Q e → Q (.await e)
  unsupported : ∀ n ∈ nodes, S (BlockScript.unsupported n.tag)
  skipped : ∀ n ∈ nodes, ∀ f : Failure, f.Names nodes → S (BlockScript.skipped n.tag f)

theorem NodesPass.within {Q : Expr → Prop} {S : Stmt → Prop} {nodes more : List Node}
    (h : NodesPass Q S more) (hsub : nodes ⊆ more) : NodesPass Q S nodes where
  toNamedPass := h.toNamedPass.within hsub
  waits n hn := h.waits n (hsub hn)
  unsupported n hn := h.unsupported n (hsub hn)
  skipped n hn f hf := h.skipped n (hsub hn) f (hf.mono fun _ hm => hsub hm)

mutual

theorem Node.operands_subset_walk : (n : Node) → n.operands ⊆ n.walk
  | .mk _ arguments _ _ =>
    List.cons_subset_cons _ fun _ hm =>
      List.mem_append_left _ (Argument.operands_subset_walkAll arguments hm)

theorem Argument.operands_subset_walkAll : (arguments : List Argument) →
    Argument.operands arguments ⊆ Argument.walkAll arguments
  | [] => List.Subset.refl _
  | .literal _ :: rest => Argument.operands_subset_walkAll rest
  | .block n :: rest => fun _ hm =>
    (List.mem_append.mp hm).elim
      (fun h => List.mem_append_left _ (Node.operands_subset_walk n h))
      (fun h => List.mem_append_right _ (Argument.operands_subset_walkAll rest h))

end

/-- The forms keep what passes, and the lines of extensions pass. -/
structure FormsPass (x : Extensions) (lowest : Int) (Q : Expr → Prop) (S : Stmt → Prop) :
    Prop where
  values : Expr.Closed Q
  statements : Stmt.Closed lowest Q S
  addedValue : ∀ tag line, extension? tag x.values = some line → Q (.verbatim line)
  addedAction : ∀ tag line, extension? tag x.actions = some line → S (.verbatim line)

/-- Without extensions, the forms are all there is. -/
theorem FormsPass.known {lowest : Int} {Q : Expr → Prop} {S : Stmt → Prop} (hQ : Expr.Closed Q)
    (hS : Stmt.Closed lowest Q S) : FormsPass {} lowest Q S where
  values := hQ
  statements := hS
  addedValue _ _ h := by cases h
  addedAction _ _ h := by cases h

section Nodes

variable {x : Extensions} {lowest : Int} {Q : Expr → Prop} {S : Stmt → Prop}

theorem closed_node (h : FormsPass x lowest Q S) {n : Node} (hn : NodesPass Q S n.walk)
    (hbodies : ∀ i, (bodyAt (Node.bodies x n.branches) i).Passes lowest S) {s : Scope}
    (hlevel : lowest ≤ s.level) : Writes S (n.actions x s) := by
  have hslots := closed_slots h.values h.addedValue s.object n.arguments
    (hn.toNamedPass.within n.arguments_subset_walk)
  intro made hok
  rcases Node.actions_cases hok with hmade | ⟨-, rfl⟩ | ⟨f, hmade, rfl⟩
  · rcases Node.attempt_eq_some hmade with
      ⟨t, line, hline, hmade⟩ | ⟨kind, hkind, hmade⟩ | ⟨id, -, hid, hmade⟩
    · cases hmade
      exact List.forall_mem_singleton.mpr (h.addedAction t line hline)
    · refine closed_compileAction h.values h.statements hslots hlevel hbodies kind ?_ ?_ made
        hmade.symm
      · intro hsuspends
        exact hn.waits n n.mem_walk_self (by simp [Node.suspends, hkind, hsuspends])
      · rintro rfl hstable
        rw [Node.slotLiteral_eq] at hstable ⊢
        exact hn.localName n n.mem_walk_self _
          (Node.localId_of_tag (Node.tag_of_action hkind) (.inr rfl) hstable)
    · obtain ⟨e, he, hmade⟩ := ok_of_bind_ok hmade.symm
      cases hmade
      have hpass := closed_functionCall hn.toNamedPass n.mem_walk_self hid hslots e he
      obtain ⟨arguments, -, he⟩ := ok_of_bind_ok he
      obtain ⟨name, -, he⟩ := ok_of_bind_ok he
      cases he
      exact List.forall_mem_singleton.mpr (h.statements.run hpass rfl)
  · exact List.forall_mem_singleton.mpr (hn.unsupported n n.mem_walk_self)
  · have hnames : f.Names n.walk := Failure.Names.mono (Node.failsOnly_attempt hmade _ rfl)
      fun m hm => Node.operands_subset_walk n hm
    exact List.forall_mem_singleton.mpr (hn.skipped n n.mem_walk_self f hnames)

mutual

/-- The statements of a node pass what the forms, and the names and comments in its tree, pass. -/
theorem closed_actions (h : FormsPass x lowest Q S) : (n : Node) → NodesPass Q S n.walk →
    ∀ s : Scope, lowest ≤ s.level → Writes S (n.actions x s)
  | .mk tag arguments branches labels => fun hn _ hlevel => by
    let n : Node := .mk tag arguments branches labels
    exact closed_node h hn (closed_bodies h branches (hn.within n.branches_subset_walk)) hlevel

theorem closed_actionsAll (h : FormsPass x lowest Q S) : (body : List Node) →
    NodesPass Q S (Node.walkAll body) → ∀ s : Scope, lowest ≤ s.level →
      Writes S (Node.actionsAll x body s)
  | [] => fun _ _ _ => givesOnly_ok (by simp)
  | n :: rest => by
    intro hbody s hlevel
    have hfirst := closed_actions h n (hbody.within (List.subset_append_left _ _)) s hlevel
    have hothers := closed_actionsAll h rest (hbody.within (List.subset_append_right _ _)) s hlevel
    refine givesOnly_bind hfirst fun first hfirst => ?_
    refine givesOnly_bind hothers fun others hothers => givesOnly_ok ?_
    exact List.forall_mem_append.mpr ⟨hfirst, hothers⟩

theorem closed_bodies (h : FormsPass x lowest Q S) : (branches : List (List Node)) →
    NodesPass Q S (Node.walkBranches branches) → ∀ i : Nat,
      (bodyAt (Node.bodies x branches) i).Passes lowest S
  | [], _, _ => fun _ _ => givesOnly_ok (by simp)
  | branch :: _, hbranches, 0 =>
    closed_actionsAll h branch (hbranches.within (List.subset_append_left _ _))
  | _ :: rest, hbranches, i + 1 =>
    closed_bodies h rest (hbranches.within (List.subset_append_right _ _)) i

end

end Nodes

end BlockScript
