-- Writing in one pass. A block can be written at its place without an expression
-- in between: each kind hands the places it has for its arguments down to them and
-- puts the parentheses that its own place asks for around the whole. The texts are
-- the same, so the place decides about these parentheses and about nothing else.
import BlockScript.Proofs.Layout
import BlockScript.Proofs.Rendering

namespace BlockScript

/-! ## Pieces -/

/-- An argument and its text at each place. -/
structure Piece where
  given : Argument
  draft : Int → Except Obstacle Text

/-- The text of the argument `i` of a block with the given tag. -/
def draftAt (tag : Json) (pieces : List Piece) (i : Nat) (place : Int) : Except Obstacle Text :=
  match pieces[i]? with
  | some p => p.draft place
  | none => fail tag .missingArgument

/-- The piece as a slot of which nothing is made. -/
def Piece.slot (p : Piece) : Slot := ⟨p.given, fail .null .unsupported⟩

/-- The plain value of the argument `i`, or `other`. -/
def valueAt (pieces : List Piece) (i : Nat) (other : Json := .null) : Json :=
  slotLiteral (pieces.map Piece.slot) i other

/-! ## Plain values -/

def literalText (v : Json) (place : Int) : Text :=
  match v with
  | .str t =>
    match Numeral.read? t with
    | some n => wrap n.text (Expr.signedRank n.text).level place
    | none => wrap t.quoted Rank.atom.level place
  | v => wrap v.line (Expr.signedRank v.line).level place

def quotedText : Json → Text
  | .null => Text.quoted []
  | v => v.shown.quoted

/-! ## Operations -/

def operationText (tag : Json) (op : Operator) : List Piece → Int → Except Obstacle Text
  | left :: right :: _, place => do
    let leftText ← left.draft op.leftPlace
    let rightText ← right.draft op.rightPlace
    return wrap (leftText ++ " " ++ op.symbol ++ " " ++ rightText) op.rank.level place
  | _, _ => fail tag .missingArgument

/-- The operator of the first piece that holds a key, and the pieces besides that one. -/
def findOperation (keys : List (String × Operator)) :
    List Piece → Except Fault (Option (Operator × List Piece))
  | [] => .ok none
  | p :: rest => do
    match ← operatorIn keys p.slot with
    | some op => return some (op, rest)
    | none => return (← findOperation keys rest).map fun r => (r.1, p :: r.2)

def keyedOperationText (keys : List (String × Operator)) (tag : Json) (pieces : List Piece)
    (place : Int) : Except Obstacle Text :=
  match findOperation keys pieces with
  | .error f => .error (.fault f)
  | .ok none => fail tag .unknownOperator
  | .ok (some (op, operands)) => operationText tag op operands place

def divisionText (tag : Json) (pieces : List Piece) (place : Int) : Except Obstacle Text :=
  let operands := pieces.filter fun p => (divisionMode? p.slot).isNone
  match (pieces.filterMap fun p => divisionMode? p.slot).getLast? with
  | some true => operationText tag .remainder operands place
  | _ => do return "Math.floor(" ++ (← operationText tag .divide operands 0) ++ ")"

def mathematicsText (tag : Json) (pieces : List Piece) : Except Obstacle Text :=
  match (pieces.filterMap fun p => functionWord? p.slot).getLast?,
      pieces.find? fun p => (functionWord? p.slot).isNone with
  | some word, some operand => do
    return "Entry.math(" ++ word.quoted ++ ", " ++ (← operand.draft 0) ++ ")"
  | _, _ => fail tag .missingArgument

/-! ## Calls and reads -/

def targetText (callee : Text) (tag : Json) (pieces : List Piece) : Except Obstacle Text :=
  match valueAt pieces 0 with
  | .null => fail tag .missingArgument
  | v => .ok (callee ++ "(" ++ quotedText v ++ ")")

def listText? (pieces : List Piece) : Option Text :=
  match valueAt pieces 0 with
  | .null => none
  | v => some ("Entry.list(" ++ quotedText v ++ ")")

def listCallText (field : Text) (tag : Json) (pieces : List Piece) : Except Obstacle Text :=
  match draftAt tag pieces 1 0, listText? pieces with
  | .error (.fault f), _ => .error (.fault f)
  | _, none => fail tag .missingArgument
  | value, some l => do return l ++ "." ++ field ++ "(" ++ (← value) ++ ")"

def stringText (tag : Json) (pieces : List Piece) (i : Nat) : Except Obstacle Text := do
  return "String(" ++ (← draftAt tag pieces i 0) ++ ")"

def changeCaseText (tag : Json) (pieces : List Piece) : Except Obstacle Text := do
  let text ← stringText tag pieces 0
  let word := valueAt pieces 1
  if !word.isKey then throw (.fault (.notAKey word))
  match word with
  | .str t =>
    if t = Text.ofString "toUpperCase" ∨ t = Text.ofString "toLowerCase" then
      return text ++ "." ++ t ++ "()"
    else fail tag .unknownCase
  | _ => fail tag .unknownCase

def objectText (object target : Json) : Text :=
  if isSelf object target then "self" else "Entry.getObject(" ++ quotedText target ++ ")"

def propertyText (object tag : Json) (pieces : List Piece) : Except Obstacle Text :=
  let target := valueAt pieces 0
  let key := valueAt pieces 1
  if !key.isKey then .error (.fault (.notAKey key))
  else match target, key.text?.bind fun k => lookup? k propertyKeys with
    | .null, _ | _, none => fail tag .missingArgument
    | target, some field => .ok (objectText object target ++ "." ++ field)

def localVariableText (tag : Json) (pieces : List Piece) : Except Obstacle Text :=
  let id := valueAt pieces 0
  if Name.isStable id then named (Name.ofLocal id) else fail tag .missingArgument

def functionCallText (id : Text) (drawn : Nat) (pieces : List Piece) (place : Int) :
    Except Obstacle Text := do
  let arguments ← pieces.mapM fun p => p.draft 0
  let name ← named (Name.ofFunction (.str id) drawn)
  return wrap ("await Entry.func." ++ name ++ "(" ++ Text.joined ", " ("self" :: arguments) ++ ")")
    Rank.unary.level place

/-! ## Every kind -/

/-- The text of a value block of a known kind at a place. -/
def ValueKind.inscribe (object tag : Json) (pieces : List Piece) (place : Int) :
    ValueKind → Except Obstacle Text
  | .number | .angle =>
    match valueAt pieces 0 (.str []) with
    | .str [] => .ok "0"
    | v => .ok (literalText v place)
  | .text | .getPictures | .getSounds => .ok (quotedText (valueAt pieces 0 (.str [])))
  | .yes => .ok "true"
  | .no => .ok "false"
  | .calcBasic => keyedOperationText arithmeticKeys tag pieces place
  | .booleanBasicOperator => keyedOperationText comparisonKeys tag pieces place
  | .booleanAndOr => keyedOperationText logicalKeys tag pieces place
  | .booleanAnd => operationText tag .and pieces place
  | .booleanOr => operationText tag .or pieces place
  | .booleanNot => do
    return wrap ("!" ++ (← draftAt tag pieces 0 Rank.unary.level)) Rank.unary.level place
  | .quotientAndMod => divisionText tag pieces place
  | .calcOperation => mathematicsText tag pieces
  | .calcRand => do
    let low ← draftAt tag pieces 0 0
    return "Entry.random(" ++ low ++ ", " ++ (← draftAt tag pieces 1 0) ++ ")"
  | .lengthOfString => do return (← stringText tag pieces 0) ++ ".length"
  | .combineSomething => do
    let left ← stringText tag pieces 0
    return wrap (left ++ " + " ++ (← stringText tag pieces 1)) Rank.additive.level place
  | .charAt => do
    let text ← stringText tag pieces 0
    return text ++ ".charAt(" ++ (← draftAt tag pieces 1 Rank.additive.level) ++ " - 1)"
  | .substring => do
    let text ← stringText tag pieces 0
    let start ← draftAt tag pieces 1 Rank.additive.level
    return text ++ ".substring(" ++ start ++ " - 1, " ++ (← draftAt tag pieces 2 0) ++ ")"
  | .indexOfString => do
    let text ← stringText tag pieces 0
    return wrap (text ++ ".indexOf(" ++ (← draftAt tag pieces 1 0) ++ ") + 1") Rank.additive.level
      place
  | .replaceString => do
    let text ← stringText tag pieces 0
    let old ← draftAt tag pieces 1 0
    return text ++ ".replaceAll(" ++ old ++ ", " ++ (← draftAt tag pieces 2 0) ++ ")"
  | .changeStringCase => changeCaseText tag pieces
  | .getVariable => targetText "Entry.variables.get" tag pieces
  | .valueOfIndexFromList => listCallText "get" tag pieces
  | .lengthOfList =>
    match listText? pieces with
    | some l => .ok (l ++ ".length")
    | none => fail tag .missingArgument
  | .isIncludedInList => listCallText "includes" tag pieces
  | .coordinateMouse =>
    match valueAt pieces 0 with
    | .str axis =>
      if axis = Text.ofString "x" ∨ axis = Text.ofString "y" then .ok ("Entry.mouse." ++ axis)
      else fail tag .unknownAxis
    | _ => fail tag .unknownAxis
  | .coordinateObject => propertyText object tag pieces
  | .distanceSomething => targetText "self.distanceTo" tag pieces
  | .reachSomething => targetText "self.isTouching" tag pieces
  | .isClicked => .ok "Entry.mouse.pressed"
  | .isPressSomeKey => do return "Entry.isKeyPressed(" ++ (← draftAt tag pieces 0 0) ++ ")"
  | .getDate => targetText "Entry.date" tag pieces
  | .calcTimerValue => .ok "Entry.timer.value"
  | .getCanvasInputValue => .ok "Entry.answer"
  | .getSoundVolume => .ok "Entry.sound.volume"
  | .getFuncVariable => localVariableText tag pieces

/-- The text of a block whose kind is not known. -/
def namedText (tag : Json) (labels : Labels) (pieces : List Piece) (place : Int) :
    Except Obstacle Text :=
  match labels.param.filter (!·.isEmpty), labels.function.filter (!·.isEmpty) with
  | some id, _ => named (Name.ofParam (.str id) labels.drawn)
  | none, some id => functionCallText id labels.drawn pieces place
  | none, none => fail tag .unsupported

def textOf (object tag : Json) (labels : Labels) (pieces : List Piece) (place : Int) :
    Except Obstacle Text :=
  match tag with
  | .str t =>
    match ValueKind.ofTag? t with
    | some kind => kind.inscribe object tag pieces place
    | none => namedText tag labels pieces place
  | tag => if tag.isKey then namedText tag labels pieces place else .error (.fault (.notAKey tag))

mutual

/-- The text of a node at a place, in a script of the given object. -/
def Node.inscribe (object : Json) : Node → Int → Except Obstacle Text
  | .mk tag arguments _ labels, place =>
    textOf object tag labels (Argument.pieces object arguments) place

def Argument.pieces (object : Json) : List Argument → List Piece
  | [] => []
  | .literal v :: rest =>
    ⟨.literal v, fun place => .ok (literalText v place)⟩ :: Argument.pieces object rest
  | .block n :: rest =>
    ⟨.block n, fun place => n.inscribe object place⟩ :: Argument.pieces object rest

end

def Argument.inscribe (object : Json) : Argument → Int → Except Obstacle Text
  | .literal v, place => .ok (literalText v place)
  | .block n, place => n.inscribe object place

/-! ## Steps that can fail -/

section Steps

variable {ε α β γ δ : Type}

theorem map_bind_eq {x : Except ε α} {k : α → Except ε δ} {f : α → Except ε γ} {g : γ → δ}
    (h : ∀ a, k a = (f a).map g) : (x >>= k) = (x >>= f).map g := by
  cases x with
  | error e => rfl
  | ok a => exact h a

/-- Two sequences agree if their first steps do up to `g` and what comes after does up to `g'`. -/
theorem bind_map_eq {x : Except ε α} {g : α → β} {k : β → Except ε δ} {f : α → Except ε γ}
    {g' : γ → δ} (h : ∀ a, k (g a) = (f a).map g') : (x.map g >>= k) = (x >>= f).map g' := by
  cases x with
  | error e => rfl
  | ok a => exact h a

end Steps

/-! ## Expressions at a place -/

theorem wrap_of_le {t : Text} {rank place : Int} (h : place ≤ rank) : wrap t rank place = t :=
  if_neg (by omega)

namespace Expr

theorem bodies_eq (es : List Expr) : bodies es = es.map (render 0) := by
  induction es with
  | nil => rfl
  | cons e es ih => rw [bodies, ih, List.map_cons, render_zero]

theorem render_ofLiteral (v : Json) (place : Int) :
    (ofLiteral v).render place = literalText v place := by
  cases v with
  | str t =>
    simp only [ofLiteral, literalText]
    cases Numeral.read? t <;> rfl
  | _ => rfl

theorem render_quoted (v : Json) (place : Int) : (quoted v).render place = quotedText v := by
  cases v <;> rfl

theorem render_binary (op : Operator) (left right : Expr) (place : Int) :
    (binary op left right).render place
      = wrap (left.render op.leftPlace ++ " " ++ op.symbol ++ " " ++ right.render op.rightPlace)
        op.rank.level place := rfl

@[simp] theorem render_text (t : Text) (place : Int) : (text t).render place = t.quoted := rfl

@[simp] theorem render_entry (place : Int) : entry.render place = "Entry" := rfl

@[simp] theorem render_self (place : Int) : self.render place = "self" := rfl

theorem render_not (e : Expr) (place : Int) :
    (not e).render place = wrap ("!" ++ e.render Rank.unary.level) Rank.unary.level place := rfl

theorem render_await (e : Expr) (place : Int) :
    (await e).render place
      = wrap ("await " ++ e.render Rank.unary.level) Rank.unary.level place := rfl

theorem render_member {e : Expr} (h : e.isCallee = true) (field : Text) (place : Int) :
    (member e field).render place = e.render 0 ++ "." ++ field := by
  rw [render_zero, ← fit_of_isCallee h e.body Rank.atom.level]
  rfl

theorem render_call {callee : Expr} (h : callee.isCallee = true) (arguments : List Expr)
    (place : Int) : (call callee arguments).render place
      = callee.render 0 ++ "(" ++ Text.joined ", " (arguments.map (render 0)) ++ ")" := by
  rw [← bodies_eq, render_zero, ← fit_of_isCallee h callee.body Rank.atom.level]
  rfl

theorem render_method {e : Expr} (h : e.isCallee = true) (field : Text) (arguments : List Expr)
    (place : Int) : (e.method field arguments).render place = e.render 0 ++ "." ++ field ++ "("
      ++ Text.joined ", " (arguments.map (render 0)) ++ ")" := by
  rw [method, render_call rfl, render_member h]

/-- An expression that one is added to or taken from. -/
theorem render_binary_one {op : Operator} (h : op.rank = .additive) (e : Expr) (place : Int) :
    (binary op e one).render place = wrap (e.render Rank.additive.level ++ " " ++ op.symbol ++ " 1")
      Rank.additive.level place := by
  have hleft : op.leftPlace = Rank.additive.level := by simp [Operator.leftPlace, h]
  have hone : one.render op.rightPlace = "1" := by
    rw [Operator.rightPlace, h]
    rfl
  rw [render_binary, hleft, hone, h]
  simp [Text.ofString]

theorem render_asString (e : Expr) (place : Int) :
    e.asString.render place = "String(" ++ e.render 0 ++ ")" := by
  rw [asString, render_call rfl]
  rfl

end Expr

/-! ## Pieces of slots -/

/-- The slot as a piece: what is made of it is rendered. -/
def Slot.piece (s : Slot) : Piece := ⟨s.given, fun place => s.made.map (Expr.render place)⟩

variable {slots : List Slot} {tag object : Json}

theorem draftAt_pieces (i : Nat) (place : Int) :
    draftAt tag (slots.map Slot.piece) i place = (slot tag slots i).map (Expr.render place) := by
  unfold draftAt slot
  rw [List.getElem?_map]
  cases slots[i]? <;> rfl

theorem valueAt_pieces (i : Nat) (other : Json) :
    valueAt (slots.map Slot.piece) i other = slotLiteral slots i other := by
  unfold valueAt slotLiteral
  rw [List.getElem?_map, List.getElem?_map]
  cases slots[i]? <;> rfl

/-- A text that goes on from an argument is that of an expression that goes on from the slot. -/
theorem draft_step {i : Nat} {p place : Int} {k : Text → Except Obstacle Text} {f : Expr → Outcome}
    (h : ∀ e : Expr, k (e.render p) = (f e).map (Expr.render place)) :
    (draftAt tag (slots.map Slot.piece) i p >>= k)
      = (slot tag slots i >>= f).map (Expr.render place) := by
  rw [draftAt_pieces]
  exact bind_map_eq h

theorem string_step {i : Nat} {place : Int} {k : Text → Except Obstacle Text} {f : Expr → Outcome}
    (h : ∀ e : Expr, k ("String(" ++ e.render 0 ++ ")") = (f e.asString).map (Expr.render place)) :
    (stringText tag (slots.map Slot.piece) i >>= k)
      = (stringSlot tag slots i >>= f).map (Expr.render place) := by
  unfold stringText stringSlot
  rw [draftAt_pieces]
  cases slot tag slots i with
  | error o => rfl
  | ok e => exact h e

theorem operationText_pieces (op : Operator) (place : Int) :
    operationText tag op (slots.map Slot.piece) place
      = (operation tag op slots).map (Expr.render place) := by
  match slots with
  | [] | [_] => rfl
  | left :: right :: rest =>
    exact bind_map_eq fun l => bind_map_eq fun r => rfl

theorem findOperation_pieces (keys : List (String × Operator)) :
    findOperation keys (slots.map Slot.piece)
      = (findOperator keys slots).map (Option.map fun r => (r.1, r.2.map Slot.piece)) := by
  induction slots with
  | nil => rfl
  | cons s rest ih =>
    refine map_bind_eq fun found => ?_
    cases found with
    | some op => rfl
    | none =>
      simp only [ih]
      refine bind_map_eq fun more => ?_
      cases more <;> rfl

theorem keyedOperationText_pieces (keys : List (String × Operator)) (place : Int) :
    keyedOperationText keys tag (slots.map Slot.piece) place
      = (keyedOperation keys tag slots).map (Expr.render place) := by
  unfold keyedOperationText keyedOperation
  rw [findOperation_pieces]
  cases findOperator keys slots with
  | error f => rfl
  | ok found =>
    cases found with
    | none => rfl
    | some r => exact operationText_pieces r.1 place

theorem divisionText_pieces (place : Int) :
    divisionText tag (slots.map Slot.piece) place
      = (division tag slots).map (Expr.render place) := by
  have hmodes : (slots.map Slot.piece).filterMap (fun p => divisionMode? p.slot)
      = slots.filterMap divisionMode? := List.filterMap_map
  have hoperands : (slots.map Slot.piece).filter (fun p => (divisionMode? p.slot).isNone)
      = (slots.filter fun s => (divisionMode? s).isNone).map Slot.piece := List.filter_map
  have hquotient : (do return Text.ofString "Math.floor(" ++ (← operationText tag .divide
        ((slots.filter fun s => (divisionMode? s).isNone).map Slot.piece) 0) ++ Text.ofString ")")
      = (do return Expr.method (.name "Math") "floor" [← operation tag .divide
        (slots.filter fun s => (divisionMode? s).isNone)] : Outcome).map (Expr.render place) := by
    rw [operationText_pieces]
    refine bind_map_eq fun e => ?_
    rw [Expr.render_zero]
    rfl
  simp only [divisionText, division, hmodes, hoperands]
  cases (slots.filterMap divisionMode?).getLast? with
  | none => exact hquotient
  | some remainder =>
    cases remainder with
    | true => exact operationText_pieces .remainder place
    | false => exact hquotient

theorem mathematicsText_pieces (place : Int) :
    mathematicsText tag (slots.map Slot.piece)
      = (mathematics tag slots).map (Expr.render place) := by
  have hwords : (slots.map Slot.piece).filterMap (fun p => functionWord? p.slot)
      = slots.filterMap functionWord? := List.filterMap_map
  have hoperand : (slots.map Slot.piece).find? (fun p => (functionWord? p.slot).isNone)
      = (slots.find? fun s => (functionWord? s).isNone).map Slot.piece := List.find?_map
  simp only [mathematicsText, mathematics, hwords, hoperand]
  cases (slots.filterMap functionWord?).getLast? with
  | none => rfl
  | some word =>
    cases slots.find? fun s => (functionWord? s).isNone with
    | none => rfl
    | some operand =>
      refine bind_map_eq fun e => congrArg Except.ok ?_
      rw [Expr.render_method rfl]
      simp [Text.joined, Text.ofString]

/-! ## Reads -/

theorem targetText_pieces {callee : Expr} {word : Text} (hcallee : callee.isCallee = true)
    (hword : callee.render 0 = word) (place : Int) :
    targetText word tag (slots.map Slot.piece)
      = (targetCall callee tag slots).map (Expr.render place) := by
  unfold targetText targetCall
  rw [valueAt_pieces]
  cases slotLiteral slots 0 with
  | null => rfl
  | _ =>
    refine congrArg Except.ok ?_
    rw [Expr.render_call hcallee, hword]
    simp [Expr.render_quoted, Text.joined]

theorem listText_pieces :
    listText? (slots.map Slot.piece) = (listOf? slots).map (Expr.render 0) := by
  unfold listText? listOf?
  rw [valueAt_pieces]
  cases slotLiteral slots 0 with
  | null => rfl
  | _ =>
    refine congrArg some ?_
    rw [Expr.render_method rfl]
    simp [Expr.render_quoted, Text.joined, Text.ofString]

theorem isCallee_listOf {l : Expr} (h : listOf? slots = some l) : l.isCallee = true := by
  unfold listOf? at h
  split at h
  · cases h
  · cases h
    rfl

theorem listCallText_pieces (field : Text) (place : Int) :
    listCallText field tag (slots.map Slot.piece)
      = (listCall field tag slots).map (Expr.render place) := by
  unfold listCallText listCall
  rw [draftAt_pieces, listText_pieces]
  cases hl : listOf? slots with
  | none =>
    cases slot tag slots 1 with
    | error o => cases o <;> rfl
    | ok e => rfl
  | some l =>
    cases slot tag slots 1 with
    | error o => cases o <;> rfl
    | ok e =>
      refine congrArg Except.ok ?_
      rw [Expr.render_method (isCallee_listOf hl)]
      simp [Text.joined]

theorem changeCaseText_pieces (place : Int) :
    changeCaseText tag (slots.map Slot.piece)
      = (changeCase tag slots).map (Expr.render place) := by
  unfold changeCaseText changeCase
  rw [valueAt_pieces]
  refine string_step fun text => ?_
  cases slotLiteral slots 1 with
  | str t =>
    by_cases hcase : t = Text.ofString "toUpperCase" ∨ t = Text.ofString "toLowerCase"
    · simp only [hcase, if_true]
      refine congrArg Except.ok ?_
      rw [Expr.render_method rfl, Expr.render_asString]
      simp [Text.joined, Text.ofString]
    · simp only [hcase, if_false]
      rfl
  | _ => rfl

theorem render_objectNamed (target : Json) (place : Int) :
    (objectNamed object target).render place = objectText object target := by
  unfold objectNamed objectText
  split
  · rfl
  · rw [Expr.render_method rfl]
    simp [Expr.render_quoted, Text.joined, Text.ofString]

theorem propertyText_pieces (place : Int) :
    propertyText object tag (slots.map Slot.piece)
      = (property object tag slots).map (Expr.render place) := by
  unfold propertyText property
  simp only [valueAt_pieces]
  split
  · rfl
  · cases (slotLiteral slots 1).text?.bind fun k => lookup? k propertyKeys with
    | none => cases slotLiteral slots 0 <;> rfl
    | some field =>
      cases slotLiteral slots 0 with
      | null => rfl
      | _ =>
        refine congrArg Except.ok ?_
        rw [Expr.render_member (forms_objectNamed object _).1, render_objectNamed]

theorem localVariableText_pieces (place : Int) :
    localVariableText tag (slots.map Slot.piece)
      = (localVariable tag slots).map (Expr.render place) := by
  simp only [localVariableText, localVariable, valueAt_pieces]
  split
  · cases named (Name.ofLocal (slotLiteral slots 0)) <;> rfl
  · rfl

theorem drafts_pieces :
    (slots.map Slot.piece).mapM (fun p => p.draft 0)
      = (slots.mapM Slot.made).map (List.map (Expr.render 0)) := by
  induction slots with
  | nil => rfl
  | cons s rest ih =>
    rw [List.map_cons, List.mapM_cons, List.mapM_cons, ih]
    exact bind_map_eq fun e => bind_map_eq fun es => rfl

theorem functionCallText_pieces (id : Text) (drawn : Nat) (place : Int) :
    functionCallText id drawn (slots.map Slot.piece) place
      = (functionCall id drawn slots).map (Expr.render place) := by
  unfold functionCallText
  rw [drafts_pieces]
  refine bind_map_eq fun arguments => map_bind_eq fun name => congrArg Except.ok ?_
  rw [Expr.render_await, Expr.render_method rfl, Expr.render_member rfl]
  simp [Text.ofString]

/-! ## Every kind -/

/-- A kind is written in one pass as its expression is. -/
theorem inscribe_pieces (kind : ValueKind) (place : Int) :
    kind.inscribe object tag (slots.map Slot.piece) place
      = (kind.compile object tag slots).map (Expr.render place) := by
  cases kind with
  | number | angle =>
    simp only [ValueKind.inscribe, ValueKind.compile, number, valueAt_pieces]
    cases slotLiteral slots 0 (.str []) with
    | str t =>
      cases t with
      | nil => rfl
      | cons g t => exact congrArg Except.ok (Expr.render_ofLiteral _ place).symm
    | _ => rfl
  | text | getPictures | getSounds =>
    simp only [ValueKind.inscribe, ValueKind.compile, valueAt_pieces]
    exact congrArg Except.ok (Expr.render_quoted _ place).symm
  | yes | no | isClicked | calcTimerValue | getCanvasInputValue | getSoundVolume => rfl
  | calcBasic | booleanBasicOperator | booleanAndOr => exact keyedOperationText_pieces _ place
  | booleanAnd | booleanOr => exact operationText_pieces _ place
  | booleanNot => exact draft_step fun e => congrArg Except.ok (Expr.render_not e place).symm
  | quotientAndMod => exact divisionText_pieces place
  | calcOperation => exact mathematicsText_pieces place
  | changeStringCase => exact changeCaseText_pieces place
  | getVariable | distanceSomething | reachSomething | getDate =>
    refine targetText_pieces ?_ ?_ place <;> rfl
  | valueOfIndexFromList | isIncludedInList => exact listCallText_pieces _ place
  | coordinateObject => exact propertyText_pieces place
  | getFuncVariable => exact localVariableText_pieces place
  | lengthOfList =>
    simp only [ValueKind.inscribe, ValueKind.compile, listText_pieces]
    cases hl : listOf? slots with
    | none => rfl
    | some l =>
      refine congrArg Except.ok ?_
      rw [Expr.render_member (isCallee_listOf hl)]
      simp [Text.ofString]
  | coordinateMouse =>
    simp only [ValueKind.inscribe, ValueKind.compile, valueAt_pieces]
    cases slotLiteral slots 0 with
    | str axis =>
      simp only
      split <;> rfl
    | _ => rfl
  | calcRand =>
    refine draft_step fun low => draft_step fun high => congrArg Except.ok ?_
    rw [Expr.render_method rfl]
    simp [Text.joined, Text.ofString]
  | isPressSomeKey =>
    refine draft_step fun key => congrArg Except.ok ?_
    rw [Expr.render_method rfl]
    simp [Text.joined, Text.ofString]
  | lengthOfString =>
    refine string_step fun text => congrArg Except.ok ?_
    rw [Expr.render_member rfl, Expr.render_asString]
    simp [Text.ofString]
  | combineSomething =>
    refine string_step fun left => string_step fun right => congrArg Except.ok ?_
    rw [Expr.render_binary, Expr.render_asString, Expr.render_asString]
    simp [Operator.symbol, Operator.rank, Text.ofString]
  | charAt =>
    refine string_step fun text => draft_step fun index => congrArg Except.ok ?_
    rw [Expr.render_method rfl, Expr.render_asString, List.map_singleton,
      Expr.render_binary_one rfl, wrap_of_le (by decide)]
    simp [Operator.symbol, Text.joined, Text.ofString]
  | substring =>
    refine string_step fun text => draft_step fun start => draft_step fun finish =>
      congrArg Except.ok ?_
    rw [Expr.render_method rfl, Expr.render_asString, List.map_cons, Expr.render_binary_one rfl,
      wrap_of_le (by decide)]
    simp [Operator.symbol, Text.joined, Text.ofString]
  | indexOfString =>
    refine string_step fun text => draft_step fun sought => congrArg Except.ok ?_
    rw [Expr.render_binary_one rfl, Expr.render_method rfl, Expr.render_asString]
    simp [Operator.symbol, Text.joined, Text.ofString]
  | replaceString =>
    refine string_step fun text => draft_step fun old => draft_step fun new => congrArg Except.ok ?_
    rw [Expr.render_method rfl, Expr.render_asString]
    simp [Text.joined, Text.ofString]

/-! ## Nodes -/

theorem namedText_pieces (labels : Labels) (place : Int) :
    namedText tag labels (slots.map Slot.piece) place
      = (namedValue tag labels slots).map (Expr.render place) := by
  unfold namedText namedValue
  cases labels.param.filter (!·.isEmpty) with
  | some id =>
    simp only
    cases named (Name.ofParam (.str id) labels.drawn) <;> rfl
  | none =>
    cases labels.function.filter (!·.isEmpty) with
    | some id => exact functionCallText_pieces id _ place
    | none => rfl

theorem textOf_pieces (labels : Labels) (place : Int) :
    textOf object tag labels (slots.map Slot.piece) place
      = (valueOf {} object tag labels slots).map (Expr.render place) := by
  unfold textOf valueOf
  cases tag with
  | str t =>
    simp only [extension?]
    cases ValueKind.ofTag? t with
    | some kind => exact inscribe_pieces kind place
    | none => exact namedText_pieces labels place
  | _ =>
    simp only
    split
    · exact namedText_pieces labels place
    · rfl

mutual

/-- Written in one pass, a node has the text of its expression. -/
theorem Node.inscribe_eq (object : Json) (place : Int) :
    (n : Node) → n.inscribe object place = (n.value {} object).map (Expr.render place)
  | .mk tag arguments _ labels => by
    rw [Node.inscribe, Node.value, Argument.pieces_eq object arguments, textOf_pieces]

theorem Argument.pieces_eq (object : Json) :
    (arguments : List Argument) →
      Argument.pieces object arguments = (Argument.slots {} object arguments).map Slot.piece
  | [] => rfl
  | .literal v :: rest => by
    rw [Argument.pieces, Argument.slots, List.map_cons, Argument.pieces_eq object rest]
    refine congrArg (· :: _) (congrArg (Piece.mk _) (funext fun place => ?_))
    exact congrArg Except.ok (Expr.render_ofLiteral v place).symm
  | .block n :: rest => by
    rw [Argument.pieces, Argument.slots, List.map_cons, Argument.pieces_eq object rest]
    refine congrArg (· :: _) (congrArg (Piece.mk _) (funext fun place => ?_))
    exact Node.inscribe_eq object place n

end

theorem Argument.inscribe_eq (object : Json) (place : Int) (a : Argument) :
    a.inscribe object place = a.written object place := by
  cases a with
  | literal v => exact congrArg Except.ok (Expr.render_ofLiteral v place).symm
  | block n => exact n.inscribe_eq object place

/-! ## Outer parentheses -/

/-- Up to the place of an atom, every expression is its body in the parentheses that its rank asks
for. -/
theorem Expr.render_eq_wrap (e : Expr) {place : Int} (h : place ≤ Rank.atom.level) :
    e.render place = wrap e.body (e.rank?.getD .atom).level place := by
  unfold Expr.render Expr.fit
  split
  · rename_i r hr
    rw [hr, Option.getD_some]
  · rename_i hr
    rw [hr, Option.getD_none, wrap_of_le h]

/-- A text and a rank are known from what they come to at the places from `0` to `7`: the text
stands alone at `0`, and the rank is the last place where it does. -/
theorem wrap_injective {t t' : Text} {r r' : Int} (hr : 1 ≤ r ∧ r ≤ 7) (hr' : 1 ≤ r' ∧ r' ≤ 7)
    (h : ∀ place, 0 ≤ place → place ≤ 7 → wrap t r place = wrap t' r' place) :
    t = t' ∧ r = r' := by
  have htext := h 0 (by omega) (by omega)
  rw [wrap_of_le (by omega), wrap_of_le (by omega)] at htext
  subst htext
  have hne : Text.ofString "(" ++ t ++ Text.ofString ")" ≠ t := by
    intro heq
    have hopen : (Text.ofString "(").length = 1 := rfl
    have hlength := congrArg List.length heq
    rw [List.length_append, List.length_append, hopen] at hlength
    omega
  refine ⟨rfl, ?_⟩
  by_contra hlt
  rcases Int.lt_or_gt_of_ne hlt with hlt | hlt
  · have hplace := h r' (by omega) (by omega)
    rw [wrap, if_pos hlt, wrap_of_le (by omega)] at hplace
    exact hne hplace
  · have hplace := h r (by omega) (by omega)
    rw [wrap_of_le (by omega), wrap, if_pos hlt] at hplace
    exact hne hplace.symm

/-- Handed down in one pass or not, the place that an argument is written at decides only about the
parentheses around it. Either nothing can be written, for one reason at all places, or one text
stands at all of them, in parentheses from one rank on. -/
theorem place_decides_only_the_outer_parentheses (object : Json) (a : Argument) :
    (∀ place, a.inscribe object place = a.written object place) ∧
    ((∃ o, ∀ place, 0 ≤ place → place ≤ 7 → a.inscribe object place = .error o) ∨
      ∃! form : Text × Int, (1 ≤ form.2 ∧ form.2 ≤ 7) ∧
        ∀ place, 0 ≤ place → place ≤ 7 →
          a.inscribe object place = .ok (wrap form.1 form.2 place)) := by
  refine ⟨a.inscribe_eq object, ?_⟩
  simp only [a.inscribe_eq object]
  unfold Argument.written
  cases a.made object with
  | error o => exact .inl ⟨o, fun _ _ _ => rfl⟩
  | ok e =>
    let r := e.rank?.getD .atom
    have hr : 1 ≤ r.level ∧ r.level ≤ 7 := by cases r <;> decide
    have hwritten : ∀ place, 0 ≤ place → place ≤ 7 →
        (Except.ok e : Outcome).map (Expr.render place) = .ok (wrap e.body r.level place) :=
      fun _ _ hle => congrArg Except.ok (e.render_eq_wrap hle)
    refine .inr ⟨(e.body, r.level), ⟨hr, hwritten⟩, ?_⟩
    rintro ⟨t, r'⟩ ⟨hr', h⟩
    obtain ⟨rfl, rfl⟩ := wrap_injective hr' hr fun place h0 h7 =>
      Except.ok.inj ((h place h0 h7).symm.trans (hwritten place h0 h7))
    rfl

end BlockScript
