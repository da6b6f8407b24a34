-- What stands in the way of a block. A block of a known kind ends as one of its
-- slots or branches does, with a failure of its own, at a literal that it looks
-- up or at the id of its local variable, and in no other way.
import BlockScript.Compile.Source
import BlockScript.Proofs.Names

namespace BlockScript

/-! ## What a computation can end with -/

/-- Every error that the computation can end with passes `P`. -/
def ErrsOnly {ε α : Type} (P : ε → Prop) (x : Except ε α) : Prop := ∀ e, x = .error e → P e

/-- Every result of the computation passes `P`. -/
def GivesOnly {ε α : Type} (P : α → Prop) (x : Except ε α) : Prop := ∀ a, x = .ok a → P a

section Errors

variable {ε α β : Type} {P Q : ε → Prop}

theorem errsOnly_ok (a : α) : ErrsOnly P (.ok a) := by
  intro e h
  cases h

theorem errsOnly_error {e : ε} (h : P e) : ErrsOnly P (.error e : Except ε α) := by
  intro e' he
  cases he
  exact h

theorem errsOnly_bind_of_ok {x : Except ε α} {k : α → Except ε β} (hx : ErrsOnly P x)
    (hk : ∀ a, x = .ok a → ErrsOnly P (k a)) : ErrsOnly P (x >>= k) := by
  intro e h
  cases x with
  | ok a => exact hk a rfl e h
  | error e' =>
    cases h
    exact hx e rfl

theorem errsOnly_bind {x : Except ε α} {k : α → Except ε β} (hx : ErrsOnly P x)
    (hk : ∀ a, ErrsOnly P (k a)) : ErrsOnly P (x >>= k) :=
  errsOnly_bind_of_ok hx fun a _ => hk a

theorem errsOnly_mapM {xs : List α} {k : α → Except ε β} (h : ∀ a ∈ xs, ErrsOnly P (k a)) :
    ErrsOnly P (xs.mapM k) := by
  induction xs with
  | nil => exact errsOnly_ok _
  | cons a rest ih =>
    rw [List.mapM_cons]
    refine errsOnly_bind (h a List.mem_cons_self) fun b => ?_
    exact errsOnly_bind (ih fun a ha => h a (List.mem_cons_of_mem _ ha)) fun bs => errsOnly_ok _

theorem ErrsOnly.mono {x : Except ε α} (h : ErrsOnly P x) (hPQ : ∀ e, P e → Q e) : ErrsOnly Q x :=
  fun e he => hPQ e (h e he)

/-- A computation without errors to end with has a result. -/
theorem ErrsOnly.ok {x : Except ε α} (h : ErrsOnly P x) (hnone : ∀ e, ¬ P e) : ∃ a, x = .ok a := by
  cases x with
  | ok a => exact ⟨a, rfl⟩
  | error e => exact absurd (h e rfl) (hnone e)

end Errors

section Results

variable {ε α β : Type} {P : α → Prop} {Q : β → Prop}

theorem givesOnly_ok {a : α} (h : P a) : GivesOnly P (.ok a : Except ε α) := by
  intro a' ha
  cases ha
  exact h

theorem givesOnly_error (e : ε) : GivesOnly P (.error e : Except ε α) := by
  intro a ha
  cases ha

theorem givesOnly_bind {x : Except ε α} {k : α → Except ε β} (hx : GivesOnly P x)
    (hk : ∀ a, P a → GivesOnly Q (k a)) : GivesOnly Q (x >>= k) := by
  intro b hb
  obtain ⟨a, ha, hb⟩ := ok_of_bind_ok hb
  exact hk a (hx a ha) b hb

theorem givesOnly_of_bind {x : Except ε α} {k : α → Except ε β}
    (h : ∀ a, x = .ok a → GivesOnly Q (k a)) : GivesOnly Q (x >>= k) :=
  givesOnly_bind (P := fun a => x = .ok a) (fun _ ha => ha) h

theorem givesOnly_mapError {ε' : Type} {x : Except ε α} {f : ε → ε'} (h : GivesOnly P x) :
    GivesOnly P (x.mapError f) := by
  intro a ha
  cases x with
  | ok b => exact h a (by cases ha; rfl)
  | error e => cases ha

theorem givesOnly_map {x : Except ε α} {f : α → β} (hx : GivesOnly P x)
    (hf : ∀ a, P a → Q (f a)) : GivesOnly Q (x.map f) := by
  intro b hb
  cases x with
  | ok a =>
    cases hb
    exact hf a (hx a rfl)
  | error e => cases hb

theorem givesOnly_mapM {xs : List β} {k : β → Except ε α} (h : ∀ b ∈ xs, GivesOnly P (k b)) :
    GivesOnly (fun as => ∀ a ∈ as, P a) (xs.mapM k) := by
  induction xs with
  | nil => exact givesOnly_ok (by simp)
  | cons b rest ih =>
    obtain ⟨hb, hrest⟩ := List.forall_mem_cons.mp h
    rw [List.mapM_cons]
    refine givesOnly_bind hb fun a ha => ?_
    exact givesOnly_bind (ih hrest) fun as has => givesOnly_ok (List.forall_mem_cons.mpr ⟨ha, has⟩)

end Results

section Obstacles

variable {P : Obstacle → Prop} {α : Type}

theorem errsOnly_fail {tag : Json} {reason : Reason} (h : P (.failure { tag, reason })) :
    ErrsOnly P (fail tag reason : Except Obstacle α) :=
  errsOnly_error h

theorem errsOnly_mapError {x : Except Fault α} (h : ErrsOnly (fun f => P (.fault f)) x) :
    ErrsOnly P (x.mapError .fault) := by
  intro o ho
  cases x with
  | ok a => cases ho
  | error f =>
    cases ho
    exact h f rfl

end Obstacles

/-! ## Ids and keys -/

/-- The fault of an id without a UTF-8 form. -/
inductive Json.Unencodable : Json → Fault → Prop
  | of {id : Text} {e : EncodeError} : id.encodeError? = some e →
      Json.Unencodable (.str id) (.unencodable e)

theorem errsOnly_written (family : Text) (id : Json) (drawn : Nat) :
    ErrsOnly id.Unencodable (written (Name.make family id drawn)) := by
  intro f hf
  cases id with
  | str t =>
    unfold written Name.make at hf
    simp only at hf
    split at hf
    · cases hf
    · split at hf
      · cases hf
      · unfold Name.digested Name.digest Text.utf8 at hf
        cases he : t.encodeError? with
        | none =>
          rw [he] at hf
          cases hf
        | some e =>
          rw [he] at hf
          cases hf
          exact .of he
  | _ => cases hf

theorem errsOnly_named {P : Obstacle → Prop} {family : Text} {id : Json} {drawn : Nat}
    (h : ∀ f, id.Unencodable f → P (.fault f)) :
    ErrsOnly P (named (Name.make family id drawn)) :=
  errsOnly_mapError ((errsOnly_written family id drawn).mono h)

theorem errsOnly_demandKey {P : Fault → Prop} {v : Json} (h : v.isKey = false → P (.notAKey v)) :
    ErrsOnly P v.demandKey := by
  unfold Json.demandKey
  split
  · exact errsOnly_ok _
  · rename_i hkey
    exact errsOnly_error (h (Bool.eq_false_iff.mpr hkey))

/-! ## Value blocks -/

theorem mem_of_findOperator {keys : List (String × Operator)} {slots operands : List Slot}
    {op : Operator} (h : findOperator keys slots = .ok (some (op, operands))) :
    ∀ s ∈ operands, s ∈ slots := by
  induction slots generalizing operands with
  | nil => cases h
  | cons s rest ih =>
    unfold findOperator at h
    cases hs : operatorIn keys s with
    | error f =>
      rw [hs] at h
      cases h
    | ok found =>
      rw [hs] at h
      cases found with
      | some op' =>
        cases h
        exact fun s hs => List.mem_cons_of_mem _ hs
      | none =>
        cases hrest : findOperator keys rest with
        | error f =>
          simp only [hrest] at h
          cases h
        | ok more =>
          simp only [hrest] at h
          cases more with
          | none => cases h
          | some r =>
            cases h
            intro s' hs'
            rcases List.mem_cons.mp hs' with rfl | hs'
            · exact List.mem_cons_self
            · exact List.mem_cons_of_mem _ (ih hrest s' hs')

/-- The value blocks that look up a literal of theirs in a table. -/
def ValueKind.looksUp : ValueKind → Bool
  | .calcBasic | .booleanBasicOperator | .booleanAndOr | .changeStringCase
  | .coordinateObject => true
  | _ => false

section Kinds

variable {P : Obstacle → Prop} {tag : Json} {slots : List Slot}
  (hown : ∀ reason, reason ≠ .unsupported → P (.failure { tag, reason }))
  (hslots : ∀ s ∈ slots, ErrsOnly P s.made)
  (hkeys : ∀ s ∈ slots, ∀ v, s.given = .literal v → v.isKey = false → P (.fault (.notAKey v)))
  (hlocal : Name.isStable (slotLiteral slots 0) = true →
    ∀ f, (slotLiteral slots 0).Unencodable f → P (.fault f))

include hkeys in
/-- A literal that is looked up and is no key stands in one of the slots. -/
theorem notAKey_of_slotLiteral (i : Nat) (h : (slotLiteral slots i).isKey = false) :
    P (.fault (.notAKey (slotLiteral slots i))) := by
  unfold slotLiteral at h ⊢
  cases hs : slots[i]? with
  | none =>
    rw [hs] at h
    cases h
  | some s =>
    rw [hs] at h
    cases hgiven : s.given with
    | literal v =>
      simp only [Option.bind_some, hgiven, Argument.literal?, Option.getD_some] at h ⊢
      exact hkeys s (List.mem_of_getElem? hs) v hgiven h
    | block n =>
      simp only [Option.bind_some, hgiven, Argument.literal?, Option.getD_none] at h
      cases h

include hkeys in
theorem errsOnly_findOperator (keys : List (String × Operator)) :
    ErrsOnly (fun f => P (.fault f)) (findOperator keys slots) := by
  induction slots with
  | nil => exact errsOnly_ok _
  | cons s rest ih =>
    unfold findOperator
    refine errsOnly_bind ?_ fun found => ?_
    · unfold operatorIn
      split
      · exact errsOnly_ok _
      · rename_i v _ hgiven
        split
        · exact errsOnly_ok _
        · rename_i hkey
          exact errsOnly_error (hkeys s List.mem_cons_self v hgiven (Bool.eq_false_iff.mpr hkey))
      · exact errsOnly_ok _
    · cases found with
      | some op => exact errsOnly_ok _
      | none =>
        refine errsOnly_bind (ih ?_) fun more => errsOnly_ok _
        exact fun s hs => hkeys s (List.mem_cons_of_mem _ hs)

include hown

theorem errsOnly_operation (op : Operator) {operands : List Slot}
    (hoperands : ∀ s ∈ operands, ErrsOnly P s.made) : ErrsOnly P (operation tag op operands) := by
  unfold operation
  split
  · rename_i left right rest
    refine errsOnly_bind (hoperands left (by simp)) fun _ => ?_
    exact errsOnly_bind (hoperands right (by simp)) fun _ => errsOnly_ok _
  · exact errsOnly_fail (hown _ (by decide))

theorem errsOnly_targetCall (callee : Expr) : ErrsOnly P (targetCall callee tag slots) := by
  unfold targetCall
  split
  · exact errsOnly_fail (hown _ (by decide))
  · exact errsOnly_ok _

theorem errsOnly_slotKey (i : Nat) : ErrsOnly P (slotKey tag slots i) := by
  unfold slotKey
  split
  · exact errsOnly_fail (hown _ (by decide))
  · exact errsOnly_ok _

include hkeys in
theorem errsOnly_property (object : Json) : ErrsOnly P (property object tag slots) := by
  unfold property
  simp only
  split
  · exact errsOnly_error (notAKey_of_slotLiteral hkeys 1 (by simpa using ‹(!_) = true›))
  · split
    · exact errsOnly_fail (hown _ (by decide))
    · exact errsOnly_fail (hown _ (by decide))
    · exact errsOnly_ok _

include hlocal in
theorem errsOnly_localVariable : ErrsOnly P (localVariable tag slots) := by
  unfold localVariable
  simp only
  split
  · exact errsOnly_bind (errsOnly_named (hlocal ‹_›)) fun _ => errsOnly_ok _
  · exact errsOnly_fail (hown _ (by decide))

include hslots

theorem errsOnly_slot (i : Nat) : ErrsOnly P (slot tag slots i) := by
  unfold slot
  split
  · rename_i s hs
    exact hslots s (List.mem_of_getElem? hs)
  · exact errsOnly_fail (hown _ (by decide))

theorem errsOnly_stringSlot (i : Nat) : ErrsOnly P (stringSlot tag slots i) :=
  errsOnly_bind (errsOnly_slot hown hslots i) fun _ => errsOnly_ok _

include hkeys in
theorem errsOnly_keyedOperation (keys : List (String × Operator)) :
    ErrsOnly P (keyedOperation keys tag slots) := by
  have hfind := errsOnly_findOperator hkeys keys
  unfold keyedOperation
  split
  · rename_i f hf
    exact errsOnly_error (hfind f hf)
  · exact errsOnly_fail (hown _ (by decide))
  · rename_i op operands hoperands
    exact errsOnly_operation hown op fun s hs => hslots s (mem_of_findOperator hoperands s hs)

theorem errsOnly_division : ErrsOnly P (division tag slots) := by
  have hoperation : ∀ op, ErrsOnly P
      (operation tag op (slots.filter fun s => (divisionMode? s).isNone)) := fun op =>
    errsOnly_operation hown op fun s hs => hslots s (List.mem_filter.mp hs).1
  unfold division
  simp only
  split
  · exact hoperation _
  · exact errsOnly_bind (hoperation _) fun _ => errsOnly_ok _

theorem errsOnly_mathematics : ErrsOnly P (mathematics tag slots) := by
  unfold mathematics
  split
  · rename_i word operand _ hfind
    exact errsOnly_bind (hslots operand (List.mem_of_find?_eq_some hfind)) fun _ => errsOnly_ok _
  · exact errsOnly_fail (hown _ (by decide))

theorem errsOnly_listCall (field : Text) : ErrsOnly P (listCall field tag slots) := by
  have hslot : ErrsOnly P (slot tag slots 1) := errsOnly_slot hown hslots 1
  unfold listCall
  simp only
  split
  · rename_i f hf
    exact errsOnly_error (hslot _ hf)
  · exact errsOnly_fail (hown _ (by decide))
  · exact errsOnly_bind hslot fun _ => errsOnly_ok _

include hkeys in
theorem errsOnly_changeCase : ErrsOnly P (changeCase tag slots) := by
  unfold changeCase
  refine errsOnly_bind (errsOnly_stringSlot hown hslots 0) fun text => ?_
  simp only
  split
  · exact errsOnly_error (notAKey_of_slotLiteral hkeys 1 (by simpa using ‹(!_) = true›))
  · split
    · split
      · exact errsOnly_ok _
      · exact errsOnly_fail (hown _ (by decide))
    · exact errsOnly_fail (hown _ (by decide))

omit hown in
theorem errsOnly_functionCall {id : Text} (hid : ∀ f, (Json.str id).Unencodable f → P (.fault f))
    (drawn : Nat) : ErrsOnly P (functionCall id drawn slots) := by
  unfold functionCall
  refine errsOnly_bind (errsOnly_mapM hslots) fun arguments => ?_
  exact errsOnly_bind (errsOnly_named hid) fun name => errsOnly_ok _

/-- A value block of a known kind stops with its own failure, as one of its slots does, at a literal
that it looks up or at the id of a local variable. -/
theorem errsOnly_compileValue (object : Json) (kind : ValueKind)
    (hkeys : kind.looksUp = true → ∀ s ∈ slots, ∀ v, s.given = .literal v → v.isKey = false →
      P (.fault (.notAKey v)))
    (hlocal : kind = .getFuncVariable → Name.isStable (slotLiteral slots 0) = true →
      ∀ f, (slotLiteral slots 0).Unencodable f → P (.fault f)) :
    ErrsOnly P (kind.compile object tag slots) := by
  have hslot := errsOnly_slot hown hslots
  have hstring := errsOnly_stringSlot hown hslots
  cases kind
  case calcBasic | booleanBasicOperator | booleanAndOr =>
    exact errsOnly_keyedOperation hown hslots (hkeys rfl) _
  case booleanAnd | booleanOr => exact errsOnly_operation hown _ hslots
  case quotientAndMod => exact errsOnly_division hown hslots
  case calcOperation => exact errsOnly_mathematics hown hslots
  case changeStringCase => exact errsOnly_changeCase hown hslots (hkeys rfl)
  case getVariable | distanceSomething | reachSomething | getDate =>
    exact errsOnly_targetCall hown _
  case valueOfIndexFromList | isIncludedInList => exact errsOnly_listCall hown hslots _
  case coordinateObject => exact errsOnly_property hown (hkeys rfl) object
  case getFuncVariable => exact errsOnly_localVariable hown (hlocal rfl)
  case number | angle =>
    simp only [ValueKind.compile, number]
    split <;> exact errsOnly_ok _
  case lengthOfList =>
    simp only [ValueKind.compile]
    split
    · exact errsOnly_ok _
    · exact errsOnly_fail (hown _ (by decide))
  case coordinateMouse =>
    simp only [ValueKind.compile]
    split
    · split
      · exact errsOnly_ok _
      · exact errsOnly_fail (hown _ (by decide))
    · exact errsOnly_fail (hown _ (by decide))
  -- the other kinds take their slots one after the other
  all_goals
    simp only [ValueKind.compile]
    repeat' first
      | exact errsOnly_ok _
      | exact hslot _
      | exact hstring _
      | refine errsOnly_bind ?_ fun _ => ?_

include hlocal in
theorem errsOnly_setLocal : ErrsOnly P (setLocal tag slots) := by
  unfold setLocal
  refine errsOnly_bind (errsOnly_slot hown hslots 1) fun value => ?_
  simp only
  split
  · exact errsOnly_bind (errsOnly_named (hlocal ‹_›)) fun _ => errsOnly_ok _
  · exact errsOnly_fail (hown _ (by decide))

end Kinds

/-! ## Action blocks -/

/-- Every fault of a body passes `P`, whether it is made or looked through for suspension. -/
structure Body.StopsOnly (P : Fault → Prop) (b : Body) : Prop where
  make : ∀ s, ErrsOnly P (b.make s)
  suspends : ErrsOnly P (BlockScript.suspends b.nodes)

theorem Body.stopsOnly_at {P : Fault → Prop} {bodies : List Body}
    (h : ∀ b ∈ bodies, b.StopsOnly P) (i : Nat) : (bodyAt bodies i).StopsOnly P := by
  unfold bodyAt
  cases hb : bodies[i]? with
  | none => exact ⟨fun _ => errsOnly_ok _, errsOnly_ok _⟩
  | some b => exact h b (List.mem_of_getElem? hb)

section Actions

variable {P : Obstacle → Prop}

theorem errsOnly_round {b : Body} (h : b.StopsOnly fun f => P (.fault f)) (s : Scope) :
    ErrsOnly P (b.round s) := by
  unfold Body.round
  refine errsOnly_bind (errsOnly_mapError (h.make _)) fun _ => ?_
  exact errsOnly_bind (errsOnly_mapError h.suspends) fun _ => errsOnly_ok _

/-- An action block of a known kind stops with its own failure, as one of its slots or branches
does, or at the id of a local variable. Only faults come out of branches. -/
theorem errsOnly_compileAction {tag : Json} {slots : List Slot} {bodies : List Body}
    (hown : ∀ reason, reason ≠ .unsupported → P (.failure { tag, reason }))
    (hslots : ∀ s ∈ slots, ErrsOnly P s.made)
    (hbodies : ∀ b ∈ bodies, b.StopsOnly fun f => P (.fault f)) (s : Scope) (kind : ActionKind)
    (hlocal : kind = .setFuncVariable → Name.isStable (slotLiteral slots 0) = true →
      ∀ f, (slotLiteral slots 0).Unencodable f → P (.fault f)) :
    ErrsOnly P (kind.compile s tag slots bodies) := by
  have hslot := errsOnly_slot hown hslots
  have hkey : ∀ i, ErrsOnly P (slotKey tag slots i) := errsOnly_slotKey hown
  have hbody i := errsOnly_mapError ((Body.stopsOnly_at hbodies i).make s)
  have hround i := errsOnly_round (Body.stopsOnly_at hbodies i) s
  cases kind
  case setFuncVariable => exact errsOnly_setLocal hown hslots (hlocal rfl)
  all_goals
    simp only [ActionKind.compile]
    repeat' first
      | exact errsOnly_ok _
      | exact hslot _
      | exact hkey _
      | exact hbody _
      | exact hround _
      | refine errsOnly_bind ?_ fun _ => ?_

end Actions

/-! ## Causes of faults -/

/-- The texts that a node makes names from: the ids of its function, its parameter and its local
variable. -/
def Node.ids (n : Node) : List Text :=
  n.labels.function.toList ++ n.labels.param.toList ++ (n.localId?.bind Json.text?).toList

/-- Why work can stop at a node: its tag or a literal of it is looked up and is no key, or one of
its ids has no UTF-8 form. -/
inductive Node.Causes (n : Node) : Fault → Prop
  | tag : n.tag.isKey = false → n.Causes (.notAKey n.tag)
  | literal {t : Text} {kind : ValueKind} {v : Json} : n.tag = .str t →
      ValueKind.ofTag? t = some kind → kind.looksUp = true → .literal v ∈ n.arguments →
      v.isKey = false → n.Causes (.notAKey v)
  | id {id : Text} {e : EncodeError} : id ∈ n.ids → id.encodeError? = some e →
      n.Causes (.unencodable e)

theorem Node.causes_of_unencodable {n : Node} {id : Text} (h : id ∈ n.ids) {f : Fault}
    (hf : (Json.str id).Unencodable f) : n.Causes f := by
  cases hf with
  | of he => exact .id h he

theorem Argument.given_slots (x : Extensions) (object : Json) (arguments : List Argument) :
    (Argument.slots x object arguments).map Slot.given = arguments := by
  induction arguments with
  | nil => rfl
  | cons a rest ih =>
    cases a with
    | literal v => simp [Argument.slots, ih]
    | block n => simp [Argument.slots, ih]

theorem Node.slotLiteral_eq (x : Extensions) (object : Json) (n : Node) :
    slotLiteral (Argument.slots x object n.arguments) 0 = n.literal 0 := by
  have hgiven := congrArg (·[0]?) (Argument.given_slots x object n.arguments)
  simp only [List.getElem?_map] at hgiven
  change _ = ((n.arguments[0]?).bind Argument.literal?).getD .null
  rw [← hgiven, slotLiteral, Option.bind_map]
  rfl

theorem ValueKind.tag_of_ofTag {t : Text} {kind : ValueKind} (h : ofTag? t = some kind) :
    Text.ofString kind.tag = t := by
  simpa using List.find?_some h

theorem ActionKind.tag_of_ofTag {t : Text} {kind : ActionKind} (h : ofTag? t = some kind) :
    Text.ofString kind.tag = t := by
  simpa using List.find?_some h

theorem Json.eq_str_of_text {v : Json} {t : Text} (h : v.text? = some t) : v = .str t := by
  cases v <;> cases h
  rfl

theorem Node.tag_of_action {n : Node} {kind : ActionKind} (h : n.action? = some kind) :
    n.tag = .str kind.tag := by
  obtain ⟨t, htag, hkind⟩ := Option.bind_eq_some_iff.mp h
  rw [Json.eq_str_of_text htag, ActionKind.tag_of_ofTag hkind]

theorem Node.literal_of_localId {n : Node} {v : Json} (h : n.localId? = some v) :
    n.literal 0 = v ∧ (n.tag = .str "get_func_variable" ∨ n.tag = .str "set_func_variable") := by
  unfold Node.localId? at h
  split at h
  · rename_i tag htag
    split at h
    · rename_i hname
      split at h <;> cases h
      exact ⟨rfl, by simpa [htag] using hname⟩
    · cases h
  · cases h

theorem Node.localId_of_tag {n : Node} {t : Text} (htag : n.tag = .str t)
    (ht : t = Text.ofString "get_func_variable" ∨ t = Text.ofString "set_func_variable")
    (hstable : Name.isStable (n.literal 0) = true) : n.localId? = some (n.literal 0) := by
  unfold Node.localId?
  rw [htag]
  simp only [if_pos ht, if_pos hstable]

/-- The id of the local variable of a node is one of its ids. -/
theorem Node.causes_of_local {n : Node} {t : Text} (htag : n.tag = .str t)
    (ht : t = Text.ofString "get_func_variable" ∨ t = Text.ofString "set_func_variable")
    (hstable : Name.isStable (n.literal 0) = true) {f : Fault} (hf : (n.literal 0).Unencodable f) :
    n.Causes f := by
  have hlocal : n.localId? = some (n.literal 0) := Node.localId_of_tag htag ht hstable
  cases hid : n.literal 0 with
  | str id =>
    rw [hid] at hf hlocal
    exact causes_of_unencodable (by simp [Node.ids, hlocal, Json.text?]) hf
  | _ =>
    rw [hid] at hf
    cases hf

/-! ## Nodes -/

/-- A node that has a value is one of a known or an added kind, a parameter or a call. -/
theorem Node.isValue_eq {x : Extensions} {n : Node} (hkey : n.tag.isKey = true) :
    n.isValue x = .ok ((n.tag.text?.bind (extension? · x.values)).isSome ||
      (n.tag.text?.bind ValueKind.ofTag?).isSome || n.param?.isSome || n.callee?.isSome) := by
  obtain ⟨tag, arguments, branches, labels⟩ := n
  cases tag with
  | arr | obj => cases hkey
  | _ => rfl

namespace Node

/-- What a node comes to before a failure becomes a comment: nothing if there is no way to compile
it. An extension goes before the known kinds, and these go before a call. -/
def attempt? (x : Extensions) (s : Scope) (n : Node) : Option (Except Obstacle (List Stmt)) :=
  let slots := Argument.slots x s.object n.arguments
  match n.tag.text?.bind (extension? · x.actions), n.action?, n.callee? with
  | some line, _, _ => some (.ok [.verbatim line])
  | none, some kind, _ => some (kind.compile s n.tag slots (Node.bodies x n.branches))
  | none, none, some id => some do
    return [.run (← functionCall id n.labels.drawn slots)]
  | none, none, none => none

theorem actions_eq {x : Extensions} {s : Scope} {n : Node} (hkey : n.tag.isKey = true) :
    n.actions x s =
      (n.attempt? x s).elim (.ok [BlockScript.unsupported n.tag]) (orSkipped n.tag) := by
  obtain ⟨tag, arguments, branches, labels⟩ := n
  rw [Node.actions, attempt?]
  cases tag with
  | str t =>
    simp only [actionsOf, namedAction, Node.tag, Node.arguments, Node.branches, Node.labels,
      action?, callee?, Json.text?, Option.bind_some]
    cases extension? t x.actions with
    | some line => rfl
    | none =>
      cases ActionKind.ofTag? t with
      | some kind => rfl
      | none => cases labels.function.filter (!·.isEmpty) <;> rfl
  | arr items => cases hkey
  | obj fields => cases hkey
  | _ =>
    simp only [actionsOf, namedAction, Node.tag, Node.arguments, Node.labels, action?, callee?,
      Json.text?, Option.bind_none, Json.isKey, if_true]
    cases labels.function.filter (!·.isEmpty) <;> rfl

theorem actions_of_not_key {x : Extensions} {s : Scope} {n : Node} (hkey : n.tag.isKey = false) :
    n.actions x s = .error (.notAKey n.tag) := by
  obtain ⟨tag, arguments, branches, labels⟩ := n
  cases tag with
  | arr | obj => rfl
  | _ => cases hkey

/-- What a node is written as: the statements of its attempt, or a comment if there is none or it
fails. -/
theorem actions_cases {x : Extensions} {s : Scope} {n : Node} {made : List Stmt}
    (h : n.actions x s = .ok made) :
    n.attempt? x s = some (.ok made) ∨
    (n.attempt? x s = none ∧ made = [BlockScript.unsupported n.tag]) ∨
    ∃ f, n.attempt? x s = some (.error (.failure f)) ∧ made = [skipped n.tag f] := by
  cases hkey : n.tag.isKey with
  | true =>
    rw [actions_eq hkey] at h
    cases hmade : n.attempt? x s with
    | none =>
      rw [hmade] at h
      cases h
      exact .inr (.inl ⟨rfl, rfl⟩)
    | some attempt =>
      rw [hmade] at h
      cases attempt with
      | ok statements =>
        cases h
        exact .inl rfl
      | error o =>
        cases o with
        | fault f => cases h
        | failure f =>
          cases h
          exact .inr (.inr ⟨f, rfl, rfl⟩)
  | false =>
    rw [actions_of_not_key hkey] at h
    cases h

/-- What an attempt is: the line of an extension, that of the node's kind, or a call. -/
theorem attempt_eq_some {x : Extensions} {s : Scope} {n : Node} {made : Except Obstacle (List Stmt)}
    (h : n.attempt? x s = some made) :
    (∃ t line, extension? t x.actions = some line ∧ made = .ok [.verbatim line]) ∨
    (∃ kind, n.action? = some kind ∧ made = kind.compile s n.tag
      (Argument.slots x s.object n.arguments) (Node.bodies x n.branches)) ∨
    ∃ id, n.action? = none ∧ n.callee? = some id ∧
      made = functionCall id n.labels.drawn (Argument.slots x s.object n.arguments) >>=
        fun e => .ok [.run e] := by
  unfold attempt? at h
  simp only at h
  split at h
  · rename_i hline
    obtain ⟨t, -, hline⟩ := Option.bind_eq_some_iff.mp hline
    exact .inl ⟨t, _, hline, (Option.some.inj h).symm⟩
  · rename_i kind _ hkind
    exact .inr (.inl ⟨kind, hkind, (Option.some.inj h).symm⟩)
  · rename_i id _ hnone hid
    exact .inr (.inr ⟨id, hnone, hid, (Option.some.inj h).symm⟩)
  · cases h

/-- With the known kinds alone, an attempt is that of the node's kind, or a call. -/
theorem attempt_cases {s : Scope} {n : Node} {made : Except Obstacle (List Stmt)}
    (h : n.attempt? {} s = some made) :
    (∃ kind, n.action? = some kind ∧ made = kind.compile s n.tag
      (Argument.slots {} s.object n.arguments) (Node.bodies {} n.branches)) ∨
    ∃ id, n.action? = none ∧ n.callee? = some id ∧
      made = functionCall id n.labels.drawn (Argument.slots {} s.object n.arguments) >>=
        fun e => .ok [.run e] :=
  (attempt_eq_some h).resolve_left fun ⟨_, _, hline, _⟩ => by cases hline

end Node

section Nodes

variable {P : Obstacle → Prop} {x : Extensions} {n : Node}

theorem errsOnly_namedValue {slots : List Slot} (hcauses : ∀ f, n.Causes f → P (.fault f))
    (hnone : n.param? = none → n.callee? = none →
      P (.failure { tag := n.tag, reason := .unsupported }))
    (hslots : ∀ s ∈ slots, ErrsOnly P s.made) : ErrsOnly P (namedValue n.tag n.labels slots) := by
  have hids : ∀ id ∈ n.ids, ∀ f, (Json.str id).Unencodable f → P (.fault f) :=
    fun id hid f hf => hcauses f (Node.causes_of_unencodable hid hf)
  unfold namedValue
  split
  · rename_i id hid
    have hmem : id ∈ n.ids := by simp [Node.ids, (Option.filter_eq_some_iff.mp hid).1]
    exact errsOnly_bind (errsOnly_named (hids id hmem)) fun _ => errsOnly_ok _
  · rename_i id _ hid
    have hmem : id ∈ n.ids := by simp [Node.ids, (Option.filter_eq_some_iff.mp hid).1]
    exact errsOnly_functionCall hslots (hids id hmem) _
  · rename_i hparam hfunction
    exact errsOnly_fail (hnone hparam hfunction)

/-- The value of a node stops with a failure of its own, at a cause in the node, or as one of its
slots does. Its own failure is that it is not supported exactly if it is no node that has a
value. -/
theorem errsOnly_node {object : Json}
    (hown : ∀ reason, (reason = .unsupported ↔ n.isValue x = .ok false) →
      P (.failure { tag := n.tag, reason }))
    (hcauses : ∀ f, n.Causes f → P (.fault f))
    (hslots : ∀ s ∈ Argument.slots x object n.arguments, ErrsOnly P s.made) :
    ErrsOnly P (n.value x object) := by
  obtain ⟨tag, arguments, branches, labels⟩ := n
  have hnamed (hkind : (tag.text?.bind ValueKind.ofTag?) = none)
      (hline : (tag.text?.bind (extension? · x.values)) = none) (hkey : tag.isKey = true) :
      ErrsOnly P (namedValue tag labels (Argument.slots x object arguments)) := by
    refine errsOnly_namedValue (n := .mk tag arguments branches labels) hcauses ?_ hslots
    intro hparam hfunction
    refine hown _ ?_
    rw [Node.isValue_eq (n := .mk tag arguments branches labels) hkey]
    simp [Node.tag, hkind, hline, hparam, hfunction]
  rw [Node.value]
  unfold valueOf
  cases tag with
  | str t =>
    simp only
    split
    · exact errsOnly_ok _
    · rename_i kind _ hkind
      refine errsOnly_compileValue (fun reason hreason => hown reason ?_) hslots object kind ?_ ?_
      · rw [Node.isValue_eq rfl]
        simp [Node.tag, Json.text?, hkind, hreason]
      · intro hlooks s hs v hv hkey
        have hliteral := List.mem_map_of_mem (f := Slot.given) hs
        rw [Argument.given_slots, hv] at hliteral
        exact hcauses _ (.literal rfl hkind hlooks hliteral hkey)
      · rintro rfl hstable f hf
        have hread : t = Text.ofString "get_func_variable" := (ValueKind.tag_of_ofTag hkind).symm
        rw [Node.slotLiteral_eq x object (.mk (.str t) arguments branches labels)] at hstable hf
        exact hcauses f (Node.causes_of_local rfl (.inl hread) hstable hf)
    · rename_i hline hkind
      exact hnamed hkind hline rfl
  | arr | obj => exact errsOnly_error (hcauses _ (.tag rfl))
  | _ => exact hnamed rfl rfl rfl

/-- An attempt stops with a failure of the node's own, at a cause in the node, or as one of its
slots or branches does. -/
theorem errsOnly_attempt {s : Scope} (hown : ∀ reason, P (.failure { tag := n.tag, reason }))
    (hcauses : ∀ f, n.Causes f → P (.fault f))
    (hslots : ∀ t ∈ Argument.slots x s.object n.arguments, ErrsOnly P t.made)
    (hbodies : ∀ b ∈ Node.bodies x n.branches, b.StopsOnly fun f => P (.fault f))
    {made : Except Obstacle (List Stmt)} (h : n.attempt? x s = some made) : ErrsOnly P made := by
  rcases Node.attempt_eq_some h with ⟨_, line, -, rfl⟩ | ⟨kind, hkind, rfl⟩ | ⟨id, -, hid, rfl⟩
  · exact errsOnly_ok _
  · refine errsOnly_compileAction (fun reason _ => hown reason) hslots hbodies s kind ?_
    rintro rfl hstable f hf
    rw [Node.slotLiteral_eq] at hstable hf
    exact hcauses f (Node.causes_of_local (Node.tag_of_action hkind) (.inr rfl) hstable hf)
  · have hmem : id ∈ n.ids := by simp [Node.ids, (Option.filter_eq_some_iff.mp hid).1]
    have hcall := errsOnly_functionCall hslots
      (fun f hf => hcauses f (Node.causes_of_unencodable hmem hf)) n.labels.drawn
    exact errsOnly_bind hcall fun _ => errsOnly_ok _

end Nodes

end BlockScript
