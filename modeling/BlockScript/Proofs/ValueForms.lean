-- The forms of values. What literals and the words of the runtime pass, and what
-- every form of expression keeps, holds of the value of every block, as far as it
-- holds of the names that the blocks stand for.
import BlockScript.Proofs.Faults
import BlockScript.Proofs.Meaning

namespace BlockScript

/-! ## Forms -/

/-- The words of the runtime that expressions start with. -/
def rootWords : List String := ["self", "Entry", "true", "false", "Math", "String"]

/-- The words of the runtime that generated code uses. -/
def runtimeWords : List String := rootWords ++
  ["floor", "math", "random", "length",
   "charAt", "substring", "indexOf", "replaceAll", "toUpperCase", "toLowerCase", "variables",
   "get", "set", "change", "show", "hide", "list", "includes", "push", "removeAt", "insertAt",
   "mouse", "x", "y", "pressed", "rotation", "direction", "size", "visible", "pictureIndex",
   "pictureName", "getObject", "distanceTo", "isTouching", "isKeyPressed", "date", "timer",
   "value", "answer", "sound", "volume", "func", "move", "setXY", "glideTo", "glideBy", "moveTo",
   "glideToObject", "rotateBy", "turnBy", "lookAt", "bounceWall", "think", "say", "clearDialog",
   "setPicture", "prevPicture", "nextPicture", "changeEffect", "setEffect", "clearEffects",
   "setLayer", "playSound", "playSoundAndWait", "playSoundRangeAndWait", "stopAll", "wait",
   "yield", "stop", "stopScripts", "stopOtherScripts", "restart", "clone", "deleteClone",
   "removeAllClones", "broadcast", "broadcastAndWait", "startScene", "startNeighborScene", "ask"]

/-- Literals and words of the runtime pass `Q`, and so does each form over parts that do. -/
structure Expr.Closed (Q : Expr → Prop) : Prop where
  literal (v : Json) : Q (.ofLiteral v)
  quoted (v : Json) : Q (.quoted v)
  text (t : Text) : Q (.text t)
  zero : Q .zero
  one : Q .one
  word {w : String} : w ∈ rootWords → Q (.name w)
  member {e : Expr} {w : String} : Q e → e.isCallee = true → w ∈ runtimeWords → Q (.member e w)
  call {callee : Expr} {arguments : List Expr} : Q callee → callee.isCallee = true →
    (∀ e ∈ arguments, Q e) → Q (.call callee arguments)
  not {e : Expr} : Q e → Q (.not e)
  binary {op : Operator} {left right : Expr} : Q left → Q right → Q (.binary op left right)

/-- What all expressions pass. -/
theorem closed_trivial : Expr.Closed fun _ => True := by
  constructor <;> intros <;> trivial

/-- What stands for the nodes by name passes `Q`: their parameters, their local variables, and the
calls of their functions with arguments that do. -/
structure NamedPass (Q : Expr → Prop) (nodes : List Node) : Prop where
  paramName : ∀ n ∈ nodes, ∀ id ∈ n.param?, ∀ name,
    Name.ofParam (.str id) n.labels.drawn = .ok name → Q (.name name)
  localName : ∀ n ∈ nodes, ∀ id ∈ n.localId?, ∀ name, Name.ofLocal id = .ok name → Q (.name name)
  called : ∀ n ∈ nodes, ∀ id ∈ n.callee?, ∀ name,
    Name.ofFunction (.str id) n.labels.drawn = .ok name →
    ∀ arguments : List Expr, (∀ e ∈ arguments, Q e) →
      Q (.await (Expr.method (.member .entry "func") name (.self :: arguments)))

theorem NamedPass.within {Q : Expr → Prop} {nodes more : List Node} (h : NamedPass Q more)
    (hsub : nodes ⊆ more) : NamedPass Q nodes where
  paramName n hn := h.paramName n (hsub hn)
  localName n hn := h.localName n (hsub hn)
  called n hn := h.called n (hsub hn)

namespace Expr.Closed

variable {Q : Expr → Prop} (hQ : Closed Q)

include hQ

theorem self : Q .self := hQ.word (w := "self") (by decide)

theorem entry : Q .entry := hQ.word (w := "Entry") (by decide)

theorem truth (b : Bool) : Q (.truth b) := by
  cases b <;> exact hQ.word (by decide)

theorem method {e : Expr} {w : String} {arguments : List Expr} (he : Q e)
    (hcallee : e.isCallee = true) (hw : w ∈ runtimeWords) (harguments : ∀ a ∈ arguments, Q a) :
    Q (e.method w arguments) :=
  hQ.call (hQ.member he hcallee hw) rfl harguments

theorem projectVariables : Q .projectVariables :=
  hQ.member hQ.entry rfl (w := "variables") (by decide)

theorem objectNamed (object target : Json) : Q (objectNamed object target) := by
  unfold BlockScript.objectNamed
  split
  · exact hQ.self
  · exact hQ.method hQ.entry rfl (w := "getObject") (by decide) (by simp [hQ.quoted])

end Expr.Closed

theorem isCallee_objectNamed (object target : Json) :
    (objectNamed object target).isCallee = true := by
  unfold objectNamed
  split <;> rfl

/-! ## Kinds of values -/

section Kinds

variable {Q : Expr → Prop} (hQ : Expr.Closed Q) {tag : Json} {slots : List Slot}
  (hslots : ∀ s ∈ slots, GivesOnly Q s.made)

omit hQ in
include hslots in
theorem givesOnly_slot (i : Nat) : GivesOnly Q (slot tag slots i) := by
  unfold slot
  split
  · rename_i s hs
    exact hslots s (List.mem_of_getElem? hs)
  · exact givesOnly_error _

include hQ

theorem closed_operation (op : Operator) {operands : List Slot}
    (hoperands : ∀ s ∈ operands, GivesOnly Q s.made) : GivesOnly Q (operation tag op operands) := by
  unfold operation
  split
  · rename_i left right rest
    refine givesOnly_bind (hoperands left (by simp)) fun l hl => ?_
    exact givesOnly_bind (hoperands right (by simp)) fun r hr => givesOnly_ok (hQ.binary hl hr)
  · exact givesOnly_error _

theorem closed_listOf {l : Expr} (h : listOf? slots = some l) : Q l ∧ l.isCallee = true := by
  unfold listOf? at h
  split at h
  · cases h
  · cases h
    exact ⟨hQ.method hQ.entry rfl (w := "list") (by decide) (by simp [hQ.quoted]), rfl⟩

theorem closed_targetCall {callee : Expr} (h : Q callee) (hcallee : callee.isCallee = true) :
    GivesOnly Q (targetCall callee tag slots) := by
  unfold targetCall
  split
  · exact givesOnly_error _
  · exact givesOnly_ok (hQ.call h hcallee (by simp [hQ.quoted]))

theorem closed_property (object : Json) : GivesOnly Q (property object tag slots) := by
  have hfields : ∀ p ∈ propertyKeys, p.2 ∈ runtimeWords := by decide
  unfold property
  simp only
  split
  · exact givesOnly_error _
  · split
    · exact givesOnly_error _
    · exact givesOnly_error _
    · rename_i hfield _
      obtain ⟨key, -, hfield⟩ := Option.bind_eq_some_iff.mp hfield
      obtain ⟨k, hk⟩ := mem_of_lookup hfield
      exact givesOnly_ok (hQ.member (hQ.objectNamed _ _) (isCallee_objectNamed _ _) (hfields _ hk))

theorem closed_coordinateMouse (object : Json) :
    GivesOnly Q (ValueKind.coordinateMouse.compile object tag slots) := by
  have hmouse : Q (.member .entry "mouse") := hQ.member hQ.entry rfl (w := "mouse") (by decide)
  simp only [ValueKind.compile]
  split
  · split
    · rename_i haxis
      rcases haxis with rfl | rfl <;> exact givesOnly_ok (hQ.member hmouse rfl (by decide))
    · exact givesOnly_error _
  · exact givesOnly_error _

omit hQ in
theorem closed_localVariable
    (hlocal : Name.isStable (slotLiteral slots 0) = true →
      ∀ name, Name.ofLocal (slotLiteral slots 0) = .ok name → Q (.name name)) :
    GivesOnly Q (localVariable tag slots) := by
  unfold localVariable
  simp only
  split
  · rename_i hstable
    exact givesOnly_of_bind fun name hname => givesOnly_ok (hlocal hstable name (named_eq_ok hname))
  · exact givesOnly_error _

include hslots

theorem closed_stringSlot (i : Nat) :
    GivesOnly (fun e => Q e ∧ e.isCallee = true) (stringSlot tag slots i) := by
  refine givesOnly_bind (givesOnly_slot hslots i) fun e he => givesOnly_ok ⟨?_, rfl⟩
  exact hQ.call (hQ.word (w := "String") (by decide)) rfl (by simpa using he)

theorem closed_keyedOperation (keys : List (String × Operator)) :
    GivesOnly Q (keyedOperation keys tag slots) := by
  unfold keyedOperation
  split
  · exact givesOnly_error _
  · exact givesOnly_error _
  · rename_i op operands hfind
    exact closed_operation hQ op fun s hs => hslots s (mem_of_findOperator hfind s hs)

theorem closed_division : GivesOnly Q (division tag slots) := by
  have hoperation : ∀ op, GivesOnly Q
      (operation tag op (slots.filter fun s => (divisionMode? s).isNone)) := fun op =>
    closed_operation hQ op fun s hs => hslots s (List.mem_filter.mp hs).1
  have hmath : Q (.name "Math") := hQ.word (w := "Math") (by decide)
  unfold division
  simp only
  split
  · exact hoperation _
  · refine givesOnly_bind (hoperation _) fun e he => givesOnly_ok ?_
    exact hQ.method hmath rfl (w := "floor") (by decide) (by simpa using he)

theorem closed_mathematics : GivesOnly Q (mathematics tag slots) := by
  unfold mathematics
  split
  · rename_i word operand _ hfind
    refine givesOnly_bind (hslots operand (List.mem_of_find?_eq_some hfind)) fun e he =>
      givesOnly_ok ?_
    exact hQ.method hQ.entry rfl (w := "math") (by decide) (by simp [hQ.text, he])
  · exact givesOnly_error _

theorem closed_listCall {w : String} (hw : w ∈ runtimeWords) :
    GivesOnly Q (listCall w tag slots) := by
  have hslot : GivesOnly Q (slot tag slots 1) := givesOnly_slot hslots 1
  unfold listCall
  simp only
  split
  · exact givesOnly_error _
  · exact givesOnly_error _
  · rename_i l hl _
    refine givesOnly_bind hslot fun e he => givesOnly_ok ?_
    exact hQ.method (closed_listOf hQ hl).1 (closed_listOf hQ hl).2 hw (by simpa using he)

theorem closed_changeCase : GivesOnly Q (changeCase tag slots) := by
  unfold changeCase
  refine givesOnly_bind (closed_stringSlot hQ hslots 0) fun text htext => ?_
  simp only
  split
  · exact givesOnly_error _
  · split
    · split
      · rename_i hword
        rcases hword with rfl | rfl <;>
          exact givesOnly_ok (hQ.method htext.1 htext.2 (by decide) (by simp))
      · exact givesOnly_error _
    · exact givesOnly_error _

/-- The value of a block of a known kind, if the local variable that it reads passes. -/
theorem closed_compileValue (object : Json) (kind : ValueKind)
    (hlocal : kind = .getFuncVariable → Name.isStable (slotLiteral slots 0) = true →
      ∀ name, Name.ofLocal (slotLiteral slots 0) = .ok name → Q (.name name)) :
    GivesOnly Q (kind.compile object tag slots) := by
  have hslot : ∀ i, GivesOnly Q (slot tag slots i) := givesOnly_slot hslots
  have hstring : ∀ i, GivesOnly (fun e => Q e ∧ e.isCallee = true) (stringSlot tag slots i) :=
    closed_stringSlot hQ hslots
  have hmember {e : Expr} (w : String) (he : Q e) (hcallee : e.isCallee = true)
      (hw : w ∈ runtimeWords) : Q (.member e w) := hQ.member he hcallee hw
  have hmethod {e : Expr} (w : String) {arguments : List Expr} (he : Q e ∧ e.isCallee = true)
      (hw : w ∈ runtimeWords) (harguments : ∀ a ∈ arguments, Q a) : Q (e.method w arguments) :=
    hQ.method he.1 he.2 hw harguments
  cases kind
  case calcBasic | booleanBasicOperator | booleanAndOr => exact closed_keyedOperation hQ hslots _
  case booleanAnd | booleanOr => exact closed_operation hQ _ hslots
  case quotientAndMod => exact closed_division hQ hslots
  case calcOperation => exact closed_mathematics hQ hslots
  case changeStringCase => exact closed_changeCase hQ hslots
  case getVariable =>
    exact closed_targetCall hQ (hmember "get" hQ.projectVariables rfl (by decide)) rfl
  case distanceSomething =>
    exact closed_targetCall hQ (hmember "distanceTo" hQ.self rfl (by decide)) rfl
  case reachSomething =>
    exact closed_targetCall hQ (hmember "isTouching" hQ.self rfl (by decide)) rfl
  case getDate => exact closed_targetCall hQ (hmember "date" hQ.entry rfl (by decide)) rfl
  case valueOfIndexFromList => exact closed_listCall hQ hslots (w := "get") (by decide)
  case isIncludedInList => exact closed_listCall hQ hslots (w := "includes") (by decide)
  case coordinateObject => exact closed_property hQ object
  case coordinateMouse => exact closed_coordinateMouse hQ object
  case getFuncVariable => exact closed_localVariable (hlocal rfl)
  case yes | no => exact givesOnly_ok (hQ.truth _)
  case text | getPictures | getSounds => exact givesOnly_ok (hQ.quoted _)
  case isClicked =>
    have hmouse := hmember "mouse" hQ.entry rfl (by decide)
    exact givesOnly_ok (hmember "pressed" hmouse rfl (by decide))
  case calcTimerValue =>
    have htimer := hmember "timer" hQ.entry rfl (by decide)
    exact givesOnly_ok (hmember "value" htimer rfl (by decide))
  case getSoundVolume =>
    have hsound := hmember "sound" hQ.entry rfl (by decide)
    exact givesOnly_ok (hmember "volume" hsound rfl (by decide))
  case getCanvasInputValue => exact givesOnly_ok (hmember "answer" hQ.entry rfl (by decide))
  case number | angle =>
    simp only [ValueKind.compile, number]
    split
    · exact givesOnly_ok hQ.zero
    · exact givesOnly_ok (hQ.literal _)
  case lengthOfList =>
    simp only [ValueKind.compile]
    split
    · rename_i hlist
      obtain ⟨hl, hcallee⟩ := closed_listOf hQ hlist
      exact givesOnly_ok (hmember "length" hl hcallee (by decide))
    · exact givesOnly_error _
  -- the other kinds take their slots one after the other
  all_goals
    simp only [ValueKind.compile]
    repeat' first
      | refine givesOnly_bind (hslot _) fun _ _ => ?_
      | refine givesOnly_bind (hstring _) fun _ _ => ?_
      | refine givesOnly_ok ?_
  case booleanNot => exact hQ.not ‹_›
  case calcRand => exact hmethod "random" ⟨hQ.entry, rfl⟩ (by decide) (by simp [*])
  case lengthOfString text htext => exact hmember "length" htext.1 htext.2 (by decide)
  case combineSomething first hfirst second hsecond => exact hQ.binary hfirst.1 hsecond.1
  case charAt text htext place hplace =>
    exact hmethod "charAt" htext (by decide) (by simpa using hQ.binary hplace hQ.one)
  case substring text htext start hstart finish hfinish =>
    exact hmethod "substring" htext (by decide) (by simp [hQ.binary hstart hQ.one, hfinish])
  case indexOfString text htext part hpart =>
    exact hQ.binary (hmethod "indexOf" htext (by decide) (by simpa using hpart)) hQ.one
  case replaceString text htext old hold new hnew =>
    exact hmethod "replaceAll" htext (by decide) (by simp [hold, hnew])
  case isPressSomeKey key hkey =>
    exact hmethod "isKeyPressed" ⟨hQ.entry, rfl⟩ (by decide) (by simpa using hkey)

end Kinds

/-- The call of a node's function. -/
theorem closed_functionCall {Q : Expr → Prop} {nodes : List Node} (hnamed : NamedPass Q nodes)
    {n : Node} (hn : n ∈ nodes) {id : Text} (hid : n.callee? = some id) {slots : List Slot}
    (hslots : ∀ s ∈ slots, GivesOnly Q s.made) :
    GivesOnly Q (functionCall id n.labels.drawn slots) := by
  unfold functionCall
  refine givesOnly_bind (givesOnly_mapM hslots) fun arguments harguments => ?_
  refine givesOnly_of_bind fun name hname => givesOnly_ok ?_
  exact hnamed.called n hn id hid name (named_eq_ok hname) arguments harguments

/-! ## Nodes -/

section Nodes

variable {Q : Expr → Prop} {x : Extensions}

theorem closed_namedValue {nodes : List Node} (hnamed : NamedPass Q nodes) {n : Node}
    (hn : n ∈ nodes) {slots : List Slot} (hslots : ∀ s ∈ slots, GivesOnly Q s.made) :
    GivesOnly Q (namedValue n.tag n.labels slots) := by
  unfold namedValue
  split
  · rename_i id hid
    refine givesOnly_of_bind fun name hname => givesOnly_ok ?_
    exact hnamed.paramName n hn id hid name (named_eq_ok hname)
  · rename_i id _ hid
    exact closed_functionCall hnamed hn hid hslots
  · exact givesOnly_error _

mutual

/-- The value of a node passes what the forms and the names in its tree pass. -/
theorem closed_value (hQ : Expr.Closed Q)
    (hx : ∀ tag line, extension? tag x.values = some line → Q (.verbatim line)) (object : Json) :
    (n : Node) → NamedPass Q n.walk → GivesOnly Q (n.value x object)
  | .mk tag arguments branches labels => by
    intro hnamed
    let n : Node := .mk tag arguments branches labels
    have hslots : ∀ s ∈ Argument.slots x object arguments, GivesOnly Q s.made :=
      closed_slots hQ hx object arguments (hnamed.within (Node.arguments_subset_walk n))
    have hname : GivesOnly Q (namedValue tag labels (Argument.slots x object arguments)) :=
      closed_namedValue hnamed (n := n) n.mem_walk_self hslots
    rw [Node.value]
    unfold valueOf
    split
    · rename_i t
      split
      · rename_i hline
        exact givesOnly_ok (hx _ _ hline)
      · rename_i kind _ hkind
        refine closed_compileValue hQ hslots object kind ?_
        rintro rfl hstable
        have hliteral : slotLiteral (Argument.slots x object arguments) 0 = n.literal 0 :=
          n.slotLiteral_eq x object
        rw [hliteral] at hstable ⊢
        have hread : t = Text.ofString "get_func_variable" := (ValueKind.tag_of_ofTag hkind).symm
        exact hnamed.localName n n.mem_walk_self _ (Node.localId_of_tag rfl (.inl hread) hstable)
      · exact hname
    · split
      · exact hname
      · exact givesOnly_error _

theorem closed_slots (hQ : Expr.Closed Q)
    (hx : ∀ tag line, extension? tag x.values = some line → Q (.verbatim line)) (object : Json) :
    (arguments : List Argument) → NamedPass Q (Argument.walkAll arguments) →
      ∀ s ∈ Argument.slots x object arguments, GivesOnly Q s.made
  | [] => by simp [Argument.slots]
  | .literal v :: rest => fun hnamed =>
    List.forall_mem_cons.mpr ⟨givesOnly_ok (hQ.literal v), closed_slots hQ hx object rest hnamed⟩
  | .block n :: rest => fun hnamed =>
    List.forall_mem_cons.mpr
      ⟨closed_value hQ hx object n (hnamed.within (List.subset_append_left _ _)),
        closed_slots hQ hx object rest (hnamed.within (List.subset_append_right _ _))⟩

end

end Nodes

end BlockScript
