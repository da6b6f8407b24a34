-- Calls and definitions in different files. The unit of a function puts it on
-- `Entry.func` under one name, and wherever a script has a block that calls the
-- function, the call is written with that name.
import BlockScript.Proofs.Buildability
import BlockScript.Proofs.Isolation
import BlockScript.Proofs.RawBlocks

namespace BlockScript

/-! ## Names in generated code -/

/-- The name after `Entry.func.` at the front of a text, and what follows it. -/
def funcMember? (t : Text) : Option (Text × Text) :=
  (Text.after? "Entry.func." t).map fun rest =>
    (Text.ofChars (Text.run isNamePart rest).1, (Text.run isNamePart rest).2)

/-- The name under which a part of a script registers a function, if it does. -/
def registeredName? (t : Text) : Option Text :=
  (funcMember? t).bind fun r =>
    if Text.startsWith r.2 " = async function (" then some r.1 else none

/-- The name of the function that a text calls and waits for, if it does. -/
def calledName? (t : Text) : Option Text :=
  ((Text.after? "await " t).bind funcMember?).bind fun r =>
    if Text.startsWith r.2 "(self" then some r.1 else none

theorem after_append (start rest : Text) : Text.after? start (start ++ rest) = some rest := by
  induction start with
  | nil => rfl
  | cons g start ih =>
    rw [List.cons_append, Text.after?, if_pos rfl]
    exact ih

theorem startsWith_append (start rest : Text) : Text.startsWith (start ++ rest) start = true := by
  rw [Text.startsWith, after_append]
  rfl

theorem funcMember_word {name : Text} (hname : IsWord name) {rest : Text}
    (hrest : Text.opens isNamePart rest = false) :
    funcMember? ("Entry.func." ++ (name ++ rest)) = some (name, rest) := by
  obtain ⟨c, cs, rfl, hc, hcs⟩ := hname
  have hall : ∀ d ∈ c :: cs, isNamePart d = true := by
    intro d hd
    rcases List.mem_cons.mp hd with rfl | hd
    · exact isNamePart_of_isNameStart hc
    · exact hcs d hd
  rw [funcMember?, after_append, Option.map_some, run_ofChars hall hrest]

theorem registeredName_function {name : Text} (hname : IsWord name) (rest : Text) :
    registeredName? ("Entry.func." ++ (name ++ (" = async function (" ++ rest))) = some name := by
  rw [registeredName?, funcMember_word hname rfl, Option.bind_some]
  exact if_pos (startsWith_append _ rest)

theorem registeredName_of_ne {c : Char} (hc : c ≠ 'E') (t : Text) :
    registeredName? (.char c :: t) = none := by
  have hafter : Text.after? "Entry.func." (.char c :: t) = none := by
    refine if_neg fun h => hc ?_
    cases h
    rfl
  rw [registeredName?, funcMember?, hafter]
  rfl

theorem calledName_call {name : Text} (hname : IsWord name) (rest : Text) :
    calledName? ("await " ++ ("Entry.func." ++ (name ++ ("(self" ++ rest)))) = some name := by
  rw [calledName?, after_append, Option.bind_some, funcMember_word hname rfl, Option.bind_some]
  exact if_pos (startsWith_append _ rest)

/-! ## Registering -/

/-- The parts of the unit's script, after its heading. -/
def WorkUnit.parts (u : WorkUnit) (draws : Draws) : Except Fault (List Text) := do
  let program ← Program.build draws (.str u.script) u.object ((u.function.map .str).getD .null)
  let width ← indentWidth u.indent
  ({ width } : Style).parts u.object program

theorem source_eq_joined (u : WorkUnit) (draws : Draws) :
    u.source draws
      = (u.parts draws).map fun parts => Text.joined "\n" (heading u.object :: parts) := by
  unfold WorkUnit.source WorkUnit.parts
  cases Program.build draws (.str u.script) u.object ((u.function.map .str).getD .null) with
  | error f => rfl
  | ok p =>
    change (indentWidth u.indent >>= _) = (indentWidth u.indent >>= _).map _
    cases indentWidth u.indent with
    | error f => rfl
    | ok width =>
      change ({ width } : Style).source u.object p = (({ width } : Style).parts u.object p).map _
      unfold Style.source
      cases ({ width } : Style).parts u.object p <;> rfl

/-- A part of the unit's script registers a function under the name. -/
def WorkUnit.Registers (u : WorkUnit) (draws : Draws) (name : Text) : Prop :=
  ∃ parts, u.parts draws = .ok parts ∧ ∃ part ∈ parts, registeredName? part = some name

theorem registeredName_of_function {y : Style} {object : Json} {f : Function} {t name : Text}
    (h : y.function object f = .ok t) (hid : Name.ofFunction f.id f.drawn = .ok name)
    (hname : IsWord name) : registeredName? t = some name := by
  obtain ⟨made, hmade, h⟩ := ok_of_bind_ok h
  obtain ⟨body, -, h⟩ := ok_of_bind_ok h
  rw [eq_ok_of_written hmade] at hid
  cases hid
  cases h
  simp only [List.append_assoc]
  exact registeredName_function hname _

/-- A handler registers nothing. -/
theorem registeredName_of_handler {y : Style} {object : Json} {h : Handler} {t : Text}
    (ht : y.handler object h = .ok t) : registeredName? t = none := by
  unfold Style.handler at ht
  split at ht
  · cases ht
    exact registeredName_of_ne (by decide) _
  · split at ht
    · cases ht
      exact registeredName_of_ne (by decide) _
    · obtain ⟨body, -, ht⟩ := ok_of_bind_ok ht
      cases ht
      exact registeredName_of_ne (by decide) _

theorem id_of_ofBlock {object functionId : Json} {draws : Draws} {tag : Text}
    {fields : List (Text × Json)} {f : Function}
    (h : Function.ofBlock object functionId draws tag fields = .ok f)
    (hgiven : functionId.isGiven = true) : f.id = functionId := by
  obtain ⟨params, -, h⟩ := ok_of_bind_ok h
  obtain ⟨locals, -, h⟩ := ok_of_bind_ok h
  cases h
  exact if_pos hgiven

/-- A unit of a function registers all that its script defines under the one name. -/
theorem registers_iff {u : WorkUnit} {draws : Draws} {id name : Text}
    (hfunction : u.function = some id) (hne : id ≠ [])
    (hid : ∀ drawn, Name.ofFunction (.str id) drawn = .ok name) (hname : IsWord name)
    {stack : Json} (hstack : stack ∈ (readScript (.str u.script)).getD []) {tag : Text}
    {fields : List (Text × Json)} (hdefines : Defines stack tag fields)
    {parts : List Text} (hparts : u.parts draws = .ok parts) (made : Text) :
    u.Registers draws made ↔ made = name := by
  have hgiven : (Json.str id).isGiven = true := by
    cases id with
    | nil => exact absurd rfl hne
    | cons g rest => rfl
  obtain ⟨p, hbuild, h⟩ := ok_of_bind_ok hparts
  obtain ⟨width, -, h⟩ := ok_of_bind_ok h
  rw [hfunction] at hbuild
  have htexts := texts_of_parts h
  have hregistered : ∀ f, .function f ∈ p → ∀ t, Style.function { width } u.object f = .ok t →
      registeredName? t = some name := by
    intro f hf t ht
    obtain ⟨_, tag', fields', hblock⟩ := ofBlock_of_build hbuild hf
    refine registeredName_of_function ht ?_ hname
    rw [id_of_ofBlock hblock hgiven]
    exact hid f.drawn
  constructor
  · rintro ⟨parts', hparts', part, hpart, hmade⟩
    rw [hparts] at hparts'
    cases hparts'
    obtain ⟨d, hd, ht⟩ := exists_of_mem_left htexts.flip hpart
    rw [Program.mem_inOrder] at hd
    cases d with
    | function f =>
      rw [hregistered f hd part ht] at hmade
      cases hmade
      rfl
    | handler g =>
      rw [registeredName_of_handler ht] at hmade
      cases hmade
  · rintro rfl
    obtain ⟨d, hd⟩ := draws.exists_mem_deal hstack
    obtain ⟨f, -, hf⟩ := ofBlock_of_defines hbuild hd hdefines
    obtain ⟨t, ht, htext⟩ := exists_of_mem_left htexts ((Program.mem_inOrder p _).mpr hf)
    exact ⟨parts, hparts, t, ht, hregistered f hf t htext⟩

theorem makes_of_mem_zip {s : Shelf} {es : List (List (Text × Json) × Nat)} {units : List WorkUnit}
    (h : List.Forall₂ s.Makes es units) {u : WorkUnit} {i : Nat}
    (hmem : (u, i) ∈ units.zip (es.map Prod.snd)) :
    ∃ entry, (entry, i) ∈ es ∧ s.Makes (entry, i) u := by
  induction h with
  | nil => cases hmem
  | @cons e u' es units hmakes _ ih =>
    rw [List.map_cons, List.zip_cons_cons, List.mem_cons] at hmem
    rcases hmem with heq | hmem
    · cases heq
      exact ⟨e.1, List.mem_cons_self, hmakes⟩
    · obtain ⟨entry, hentry, hmakes⟩ := ih hmem
      exact ⟨entry, List.mem_cons_of_mem _ hentry, hmakes⟩

/-- A unit is made from the entry that it comes from. -/
theorem WorkUnit.ComesFrom.makes {u : WorkUnit} {g : Settings} {manifest : List (Text × Json)}
    {s : Shelf} {i : Nat} (h : u.ComesFrom g manifest s i) {entry : List (Text × Json)}
    (hentry : (s.entries manifest)[i]? = some entry) : s.Makes (entry, i) u := by
  obtain ⟨units, hunits, hmem⟩ := h
  obtain ⟨objects, functions, rfl, hobjects, hfunctions⟩ := collectUnits_cases hunits
  have hmakes : ∀ {used : List Text} {units : List WorkUnit},
      s.units g used 0 (s.entries manifest) = .ok units →
      (u, i) ∈ units.zip (s.places 0 (s.entries manifest)) → s.Makes (entry, i) u := by
    intro used units hunits hplace
    obtain ⟨entry', hmem', hmakes⟩ := makes_of_mem_zip (makes_units hunits) hplace
    have hentry' := List.mk_mem_zipIdx_iff_getElem?.mp (List.mem_of_mem_filter hmem')
    rw [hentry] at hentry'
    cases hentry'
    exact hmakes
  rcases (mem_zip_entryPlaces (Shelf.length_places hobjects)).mp hmem with
    ⟨rfl, hplace⟩ | ⟨rfl, hplace⟩
  · exact hmakes hobjects hplace
  · exact hmakes hfunctions hplace

/-- The unit of a function entry compiles the content of the entry under its id. -/
theorem unit_of_functionEntry {f : WorkUnit} {g : Settings} {manifest : List (Text × Json)}
    {i : Nat} (h : f.ComesFrom g manifest functionShelf i) {entry : List (Text × Json)}
    (hentry : (functionShelf.entries manifest)[i]? = some entry) {id content : Text}
    (hid : field? "id" entry = some (.str id)) (hne : id ≠ [])
    (hcontent : textField? "content" entry = some content) :
    f.function = some id ∧ f.script = content := by
  have hmakes := h.makes hentry
  have hentryId : functionShelf.entryId i entry = id := by
    unfold Shelf.entryId
    rw [hid]
    cases id with
    | nil => exact absurd rfl hne
    | cons g rest => rfl
  constructor
  · rw [hmakes.function, hmakes.id, hentryId]
    rfl
  · have hfield : field? "content" entry = some (.str f.script) := hmakes.script
    have hscript : textField? "content" entry = some f.script := by
      unfold textField?
      rw [hfield]
      rfl
    rw [hcontent] at hscript
    cases hscript
    rfl

/-- The name of a function with a usable id that stays on one line is an identifier, and the same
whatever is drawn. -/
theorem exists_functionName {id : Text} (hstable : Name.isStable (.str id) = true)
    (hhalf : id.NoHalf) (hline : .char '\n' ∉ id) :
    ∃ name, (∀ drawn, Name.ofFunction (.str id) drawn = .ok name) ∧ IsWord name := by
  have hnoHalf : ∀ t, Json.str id = .str t → t.NoHalf := by
    intro t ht
    cases ht
    exact hhalf
  obtain ⟨name, hname, ⟨-, hword⟩ | ⟨⟨body, -, -, hends⟩, -⟩⟩ :=
    Name.make_cases (by decide : IsWord "f") 0 hnoHalf
  · obtain ⟨digest, hdigest⟩ := Name.digest_of_noHalf hhalf
    have hmade := Name.make_stable "f" hstable hdigest
    rw [hmade 0] at hname
    exact ⟨name, fun drawn => (hmade drawn).trans hname, hword⟩
  · cases hends
    exact absurd (by simp [Text.ofString]) hline

/-! ## Calling -/

/-- The block calls the function with this id: by its type, unless it names another function, or by
naming it, unless its type is `taken` for something else. -/
inductive CallsFunction (taken : Text → Bool) (id : Text) (fields : List (Text × Json)) : Prop
  | byType (htype : textField? "type" fields = some ("func_" ++ id))
      (hother : ∀ t, textField? "funcId" fields = some t → t = [])
  | byName {tag : Text} (htype : textField? "type" fields = some tag)
      (hname : textField? "funcId" fields = some id) (hfree : taken tag = false)

/-- A type with a value of its own: that of a known value block, or of a parameter. -/
def hasValue (tag : Text) : Bool := (ValueKind.ofTag? tag).isSome || (Name.paramOfTag? tag).isSome

/-- A type with an action of its own. -/
def hasAction (tag : Text) : Bool := (ActionKind.ofTag? tag).isSome

/-- No kind is found under a type that calls a function. -/
theorem find_func {α : Type} {tagOf : α → String} {all : List α}
    (h : ∀ k ∈ all, Text.startsWith (tagOf k) "func_" = false) (id : Text) :
    (all.find? fun k => Text.ofString (tagOf k) = "func_" ++ id) = none := by
  apply List.find?_eq_none.mpr
  intro k hk heq
  have hstart := h k hk
  rw [of_decide_eq_true heq, startsWith_append] at hstart
  cases hstart

theorem hasValue_func (id : Text) : hasValue ("func_" ++ id) = false := by
  have hkind : ValueKind.ofTag? ("func_" ++ id) = none := find_func (by decide) id
  rw [hasValue, hkind]
  rfl

theorem hasAction_func (id : Text) : hasAction ("func_" ++ id) = false := by
  have hkind : ActionKind.ofTag? ("func_" ++ id) = none := find_func (by decide) id
  rw [hasAction, hkind]
  rfl

section Calls

variable {id : Text} (hne : id ≠ []) (hline : .char '\n' ∉ id)
include hne hline

theorem functionOfTag_func : Name.functionOfTag? ("func_" ++ id) = some id := by
  unfold Name.functionOfTag? Name.idAfter?
  rw [after_append]
  simp [dropFinalNewline_eq hline, hne, hline]

theorem callee_of_calls {taken : Text → Bool} (htaken : taken ("func_" ++ id) = false)
    {fields : List (Text × Json)} (h : CallsFunction taken id fields) {object : Json}
    {draws : Draws} {tag : Text} (htag : textField? "type" fields = some tag) :
    (nodeOf object draws tag fields).labels.function = some id ∧ taken tag = false := by
  rw [(labels_nodeOf object draws tag fields).1]
  cases h with
  | byType htype hother =>
    rw [htag] at htype
    cases htype
    refine ⟨?_, htaken⟩
    rw [functionOfTag_func hne hline]
    cases hfield : textField? "funcId" fields with
    | none => rfl
    | some t =>
      rw [hother t hfield]
      rfl
  | byName htype hname hfree =>
    rw [htag] at htype
    cases htype
    refine ⟨?_, hfree⟩
    rw [hname]
    cases id with
    | nil => exact absurd rfl hne
    | cons g rest => rfl

end Calls

theorem eq_of_named {n : Except EncodeError Text} {t t' : Text} (h : named n = .ok t)
    (hn : n = .ok t') : t = t' := by
  subst hn
  cases h
  rfl

/-- The call of a function waits for it, and names it as the function is named. -/
theorem body_functionCall {id name : Text} {drawn : Nat} {slots : List Slot} {e : Expr}
    (h : functionCall id drawn slots = .ok e) (hid : Name.ofFunction (.str id) drawn = .ok name) :
    e.rank? = some .unary ∧
      ∃ rest : Text, e.body = "await " ++ ("Entry.func." ++ (name ++ ("(self" ++ rest))) := by
  obtain ⟨arguments, -, h⟩ := ok_of_bind_ok h
  obtain ⟨made, hmade, h⟩ := ok_of_bind_ok h
  obtain rfl := eq_of_named hmade hid
  cases h
  refine ⟨rfl, ?_⟩
  have hself : ∃ rest : Text,
      Text.joined ", " (Expr.bodies (.self :: arguments)) = "self" ++ rest := by
    cases arguments with
    | nil => exact ⟨[], rfl⟩
    | cons a rest => exact ⟨_, List.append_assoc _ _ _⟩
  obtain ⟨rest, hrest⟩ := hself
  refine ⟨rest ++ ")", ?_⟩
  change "await " ++ ("Entry" ++ "." ++ "func" ++ "." ++ made ++ "("
    ++ Text.joined ", " (Expr.bodies (.self :: arguments)) ++ ")") = _
  rw [hrest]
  simp [Text.ofString]

section Rendering

variable {fields : List (Text × Json)} {object : Json} {draws : Draws} {tag id name : Text}
  {drawn : Nat}

theorem filter_function {function : Option Text} (h : function = some id) (hne : id ≠ []) :
    function.filter (!·.isEmpty) = some id := by
  rw [h]
  simp [hne]

/-- The value of a block that calls a function is that call. -/
theorem value_of_calls (hfunction : (nodeOf object draws tag fields).labels.function = some id)
    (hne : id ≠ []) (hfree : hasValue tag = false) (owner : Json) :
    ∃ drawn slots, (nodeOf object draws tag fields).value {} owner
      = functionCall id drawn slots := by
  rw [hasValue, Bool.or_eq_false_iff, Option.isSome_eq_false_iff, Option.isNone_iff_eq_none,
    Option.isSome_eq_false_iff, Option.isNone_iff_eq_none] at hfree
  obtain ⟨hkind, hparam⟩ := hfree
  refine ⟨(nodeOf object draws tag fields).labels.drawn,
    Argument.slots {} owner (nodeOf object draws tag fields).arguments, ?_⟩
  change valueOf {} owner (.str tag) (nodeOf object draws tag fields).labels _ = _
  unfold valueOf namedValue
  simp only [extension?, hkind, (labels_nodeOf object draws tag fields).2, hparam,
    filter_function hfunction hne, Option.filter_none]
  rfl

/-- The action of a block that calls a function is that call, or a comment. -/
theorem actions_of_calls (hfunction : (nodeOf object draws tag fields).labels.function = some id)
    (hne : id ≠ []) (hfree : hasAction tag = false) (s : Scope) :
    ∃ drawn slots, (nodeOf object draws tag fields).actions {} s
      = orSkipped (.str tag) (functionCall id drawn slots >>= fun e => .ok [.run e]) := by
  rw [hasAction, Option.isSome_eq_false_iff, Option.isNone_iff_eq_none] at hfree
  refine ⟨(nodeOf object draws tag fields).labels.drawn,
    Argument.slots {} s.object (nodeOf object draws tag fields).arguments, ?_⟩
  change actionsOf {} s (.str tag) (nodeOf object draws tag fields).labels _ _ = _
  unfold actionsOf namedAction
  simp only [extension?, hfree, filter_function hfunction hne]
  rfl

/-- Wherever the value stands, its text calls the function by its name. -/
theorem calledName_of_value {slots : List Slot} {e : Expr}
    (h : functionCall id drawn slots = .ok e) (hid : Name.ofFunction (.str id) drawn = .ok name)
    (hname : IsWord name) (place : Int) :
    ∃ call, e.render place = wrap call Rank.unary.level place ∧ calledName? call = some name := by
  obtain ⟨hrank, rest, hbody⟩ := body_functionCall h hid
  refine ⟨e.body, ?_, ?_⟩
  · rw [Expr.render, Expr.fit, hrank]
  · rw [hbody]
    exact calledName_call hname rest

/-- The line of the action is a comment, or calls the function by its name. -/
theorem calledName_of_actions {slots : List Slot} {made : List Stmt}
    (h : orSkipped (.str tag) (functionCall id drawn slots >>= fun e => .ok [.run e]) = .ok made)
    (hid : Name.ofFunction (.str id) drawn = .ok name) (hname : IsWord name) (depth : Int) :
    ∃ line : Text, Stmt.linesAll depth made = [⟨depth, line⟩] ∧
      (line.startsWith "// " = true ∨ calledName? line = some name) := by
  cases hcall : functionCall id drawn slots with
  | error o =>
    rw [hcall] at h
    cases o with
    | failure f =>
      cases h
      exact ⟨_, rfl, .inl (startsWith_append _ _)⟩
    | fault f => cases h
  | ok e =>
    rw [hcall] at h
    cases h
    obtain ⟨hrank, rest, hbody⟩ := body_functionCall hcall hid
    refine ⟨_, rfl, .inr ?_⟩
    have hrender : e.render 0 = e.body := by
      rw [Expr.render, Expr.fit, hrank]
      rfl
    rw [hrender, hbody]
    simp only [List.append_assoc]
    exact calledName_call hname _

end Rendering

/-- A function of the manifest and a call of it in a script. The unit of the function registers one
name on `Entry.func`, the same for every definition in it, if it has a source at all. The block that
calls the function has its node in the tree of the script, and wherever the node is written as a
value or as an action, the call takes just that name. Nothing of this depends on what the two
scripts draw. -/
theorem calls_take_the_registered_name (g : Settings) (manifest : List (Text × Json)) (i : Nat)
    (entry : List (Text × Json)) (id content : Text) (f : WorkUnit)
    (hentry : (functionShelf.entries manifest)[i]? = some entry)
    (hid : field? "id" entry = some (.str id))
    (hstable : Name.isStable (.str id) = true) (hline : .char '\n' ∉ id) (hhalf : id.NoHalf)
    (hcontent : textField? "content" entry = some content)
    (hdefines : ∃ stack ∈ (readScript (.str content)).getD [],
      ∃ tag definition, Defines stack tag definition)
    (hunit : f.ComesFrom g manifest functionShelf i)
    (u : WorkUnit) (threads items : List Json) (fields : List (Text × Json))
    (hscript : readScript (.str u.script) = some threads) (hitems : .arr items ∈ threads)
    (hblock : HoldsBlock items fields) :
    ∃ name tag, textField? "type" fields = some tag ∧
      (∀ draws source, f.source draws = .ok source →
        ∀ made, f.Registers draws made ↔ made = name) ∧
      (∀ draws, ∃ d, nodeOf u.object d tag fields ∈ scriptNodes u.object draws (.str u.script)) ∧
      (CallsFunction hasValue id fields →
        ∀ d owner e, (nodeOf u.object d tag fields).value {} owner = .ok e → ∀ place, ∃ call,
          e.render place = wrap call Rank.unary.level place ∧ calledName? call = some name) ∧
      (CallsFunction hasAction id fields →
        ∀ d s made, (nodeOf u.object d tag fields).actions {} s = .ok made → ∀ depth,
          ∃ line : Text, Stmt.linesAll depth made = [⟨depth, line⟩] ∧
            (line.startsWith "// " = true ∨ calledName? line = some name)) := by
  have hne : id ≠ [] := by
    rintro rfl
    cases hstable
  obtain ⟨tag, htag⟩ := tag_of_holdsBlock hblock
  obtain ⟨name, hname, hword⟩ := exists_functionName hstable hhalf hline
  refine ⟨name, tag, htag, ?_, fun draws => ?_, ?_, ?_⟩
  · intro draws source hsource made
    obtain ⟨hfunction, rfl⟩ := unit_of_functionEntry hunit hentry hid hne hcontent
    obtain ⟨stack, hstack, tag', definition, hdefines⟩ := hdefines
    rw [source_eq_joined] at hsource
    cases hparts : f.parts draws with
    | error e =>
      rw [hparts] at hsource
      cases hsource
    | ok parts => exact registers_iff hfunction hne hname hword hstack hdefines hparts made
  · exact mem_scriptNodes_of_holdsBlock u.object draws hscript hitems hblock htag
  · intro hcalls d owner e he place
    obtain ⟨hfunction, hfree⟩ := callee_of_calls hne hline (hasValue_func id) hcalls htag
    obtain ⟨drawn, slots, hvalue⟩ := value_of_calls hfunction hne hfree owner
    rw [hvalue] at he
    exact calledName_of_value he (hname drawn) hword place
  · intro hcalls d s made hmade depth
    obtain ⟨hfunction, hfree⟩ := callee_of_calls hne hline (hasAction_func id) hcalls htag
    obtain ⟨drawn, slots, hactions⟩ := actions_of_calls hfunction hne hfree s
    rw [hactions] at hmade
    exact calledName_of_actions hmade (hname drawn) hword depth

/-- A block that names a function under a type of its own. -/
def namingBlock : List (Text × Json) := [("type", .str "x"), ("funcId", .str "a-b")]

/-- A block that calls the function by its type, with the other block for a parameter. -/
def callingBlock : List (Text × Json) :=
  [("type", .str "func_a-b"), ("params", .arr [.obj namingBlock])]

def callerStack : List Json := [.obj [("type", .str "when_run_button_click")], .obj callingBlock]

def callerScript : Text :=
  "[[\x7b\"type\":\"when_run_button_click\"\x7d,\x7b\"type\":\"func_a-b\","
    ++ "\"params\":[\x7b\"type\":\"x\",\"funcId\":\"a-b\"\x7d]\x7d]]"

def definingScript : Text := "[[\x7b\"type\":\"function_create\"\x7d]]"

theorem read_callerScript : readScript (.str callerScript) = some [.arr callerStack] := by
  decide +kernel

theorem read_definingScript :
    readScript (.str definingScript) = some [.arr [.obj [("type", .str "function_create")]]] := by
  decide +kernel

theorem isOk_of_toOption {ε α β : Type} {x : Except ε α} {f : α → β} {b : β}
    (h : x.toOption.map f = some b) : x.isOk = true := by
  cases x with
  | error e => cases h
  | ok a => rfl

/-- Both blocks take the name of the function, one of them as an argument of the other. -/
theorem hyphen_in_an_id_links :
    let entry : List (Text × Json) := [("id", .str "a-b"), ("content", .str definingScript)]
    let manifest : List (Text × Json) := [("functions", .arr [.obj entry])]
    let f : WorkUnit :=
      { id := "a-b", name := "a-b", script := definingScript, path := "script/func_a-b.js",
        function := some "a-b" }
    f.ComesFrom {} manifest functionShelf 0 ∧
    ∃ source name, f.source (.all 0) = .ok source ∧
      (∀ made, f.Registers (.all 0) made ↔ made = name) ∧
      (∃ e call, (nodeOf (.str "o") (.all 1) "x" namingBlock).value {} (.str "o") = .ok e ∧
        e.render 7 = wrap call Rank.unary.level 7 ∧ calledName? call = some name) ∧
      ∃ made, ∃ line : Text,
        (nodeOf (.str "o") (.all 2) "func_a-b" callingBlock).actions {} {} = .ok made ∧
        Stmt.linesAll 1 made = [⟨1, line⟩] ∧ calledName? line = some name := by
  intro entry manifest f
  have hunit : f.ComesFrom {} manifest functionShelf 0 := ⟨_, rfl, List.mem_cons_self⟩
  have hdefines : ∃ stack ∈ (readScript (.str definingScript)).getD [],
      ∃ tag definition, Defines stack tag definition := by
    rw [read_definingScript]
    exact ⟨_, List.mem_cons_self, _, _, ⟨⟨[], rfl⟩, rfl, .inl rfl⟩⟩
  have houter : HoldsBlock callerStack callingBlock := .member (by simp [callerStack]) rfl
  have hinner : HoldsBlock callerStack namingBlock :=
    .parameter houter rfl (.member List.mem_cons_self rfl)
  obtain ⟨source, hsource⟩ := exists_of_isOk (x := f.source (.all 0)) (by decide +kernel)
  obtain ⟨e, he⟩ := exists_of_isOk
    (x := (nodeOf (.str "o") (.all 1) "x" namingBlock).value {} (.str "o")) (by decide +kernel)
  have hplain : ((nodeOf (.str "o") (.all 2) "func_a-b" callingBlock).actions {} {}).toOption.map
      (fun made => (Stmt.linesAll 1 made).any fun l => Text.startsWith l.text "// ")
        = some false := by
    decide +kernel
  obtain ⟨made, hmade⟩ := exists_of_isOk
    (x := (nodeOf (.str "o") (.all 2) "func_a-b" callingBlock).actions {} {})
    (isOk_of_toOption hplain)
  have hlinks := calls_take_the_registered_name {} manifest 0 entry "a-b" definingScript f rfl rfl
    (by decide) (by decide) (by decide) rfl hdefines hunit
    { id := "o", name := "o", script := callerScript, path := "script/o.js" }
    [.arr callerStack] callerStack
  obtain ⟨name, tag, htag, hregisters, -, hvalue, -⟩ :=
    hlinks namingBlock read_callerScript List.mem_cons_self hinner
  cases htag
  obtain ⟨name', tag, htag, hregisters', -, -, hactions⟩ :=
    hlinks callingBlock read_callerScript List.mem_cons_self houter
  cases htag
  obtain rfl : name' = name :=
    (hregisters _ source hsource name').mp ((hregisters' _ source hsource name').mpr rfl)
  obtain ⟨call, hrender, hcall⟩ := hvalue (.byName rfl rfl (by decide)) _ (.str "o") e he 7
  have hother : textField? "funcId" callingBlock = none := rfl
  obtain ⟨line, hlines, hline⟩ := hactions (.byType rfl (by simp [hother])) _ {} made hmade 1
  refine ⟨hunit, source, name', hsource, hregisters _ source hsource, ⟨e, call, he, hrender, hcall⟩,
    made, line, hmade, hlines, hline.resolve_left ?_⟩
  intro hcomment
  rw [hmade] at hplain
  simp [Except.toOption, hlines, hcomment] at hplain

end BlockScript
