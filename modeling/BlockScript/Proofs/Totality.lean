-- Scripts of any shape. Every node of a script comes from a raw block in it, so
-- a script without halves in its texts, and without lists where blocks look up
-- a literal, always has a source.
import BlockScript.Proofs.Building
import BlockScript.Proofs.Naming
import BlockScript.Proofs.Writability

namespace BlockScript

/-! ## Raw blocks -/

/-- A raw block in a list of raw values: an object of the list with a text for its type, or a block
among the parameters or in a branch of such a block. -/
inductive HoldsBlock : List Json → List (Text × Json) → Prop
  | member {items : List Json} {fields : List (Text × Json)} : .obj fields ∈ items →
      (textField? "type" fields).isSome = true → HoldsBlock items fields
  | parameter {items params : List Json} {outer fields : List (Text × Json)} :
      HoldsBlock items outer → field? "params" outer = some (.arr params) →
      HoldsBlock params fields → HoldsBlock items fields
  | branch {items branches body : List Json} {outer fields : List (Text × Json)} :
      HoldsBlock items outer → field? "statements" outer = some (.arr branches) →
      .arr body ∈ branches → HoldsBlock body fields → HoldsBlock items fields

/-- The node is that of a raw block in the list, with some numbers drawn. -/
def Node.MadeIn (object : Json) (items : List Json) (n : Node) : Prop :=
  ∃ draws fields tag, HoldsBlock items fields ∧ textField? "type" fields = some tag ∧
    n = nodeOf object draws tag fields

/-- Whatever role a raw value plays, the nodes that it brings in are those of raw blocks. -/
structure Traced (object : Json) (draws : Draws) (v : Json) : Prop where
  block : ∀ m, (Json.roles object draws v).block = some m → ∀ n ∈ m.walk, ∀ items, v ∈ items →
    n.MadeIn object items
  stack : ∀ items, v = .arr items → ∀ n ∈ Node.walkAll (Json.roles object draws v).stack,
    n.MadeIn object items
  arguments : ∀ items, v = .arr items →
    ∀ n ∈ Argument.walkAll (Json.roles object draws v).arguments, n.MadeIn object items
  branches : ∀ items, v = .arr items →
    ∀ n ∈ Node.walkBranches (Json.roles object draws v).branches,
      ∃ body, .arr body ∈ items ∧ n.MadeIn object body

theorem Draws.map_snd_deal {α : Type} (draws : Draws) (l : List α) :
    (draws.deal l).map Prod.snd = l := by
  induction l generalizing draws with
  | nil => rfl
  | cons a rest ih => rw [Draws.deal, List.map_cons, ih]

theorem Draws.mem_of_mem_deal {α : Type} {draws : Draws} {l : List α} {p : Draws × α}
    (h : p ∈ draws.deal l) : p.2 ∈ l := by
  rw [← draws.map_snd_deal l]
  exact List.mem_map_of_mem h

theorem itemRoles_eq (object : Json) (draws : Draws) (items : List Json) :
    Json.itemRoles object draws items =
      (draws.deal items).map fun p => (p.2, Json.roles object p.1 p.2) := by
  induction items generalizing draws with
  | nil => rfl
  | cons v rest ih => rw [Json.itemRoles, ih, Draws.deal, List.map_cons]

/-- The role of a field is that of its value, with some of the numbers. -/
theorem roleOf_fieldRoles (object : Json) (draws : Draws) (key : Text)
    (fields : List (Text × Json)) :
    ∃ d, roleOf key (Json.fieldRoles object draws fields) =
      Json.roles object d ((field? key fields).getD .null) := by
  induction fields generalizing draws with
  | nil => exact ⟨draws, by simp [Json.fieldRoles, roleOf, field?, Json.roles]⟩
  | cons f rest ih =>
    obtain ⟨k, v⟩ := f
    rw [Json.fieldRoles, roleOf, field?]
    split
    · exact ⟨draws.first, rfl⟩
    · exact ih draws.rest

theorem Argument.exists_of_mem_walkAll {arguments : List Argument} {n : Node}
    (h : n ∈ Argument.walkAll arguments) : ∃ m, Argument.block m ∈ arguments ∧ n ∈ m.walk := by
  induction arguments with
  | nil => cases h
  | cons a rest ih =>
    cases a with
    | literal v =>
      obtain ⟨m, hm, hn⟩ := ih h
      exact ⟨m, List.mem_cons_of_mem _ hm, hn⟩
    | block m =>
      rcases List.mem_append.mp h with h | h
      · exact ⟨m, List.mem_cons_self, h⟩
      · obtain ⟨m', hm', hn⟩ := ih h
        exact ⟨m', List.mem_cons_of_mem _ hm', hn⟩

theorem Node.exists_of_mem_walkBranches {branches : List (List Node)} {n : Node}
    (h : n ∈ Node.walkBranches branches) : ∃ body ∈ branches, n ∈ Node.walkAll body := by
  induction branches with
  | nil => cases h
  | cons body rest ih =>
    rcases List.mem_append.mp h with h | h
    · exact ⟨body, List.mem_cons_self, h⟩
    · obtain ⟨body', hbody', hn⟩ := ih h
      exact ⟨body', List.mem_cons_of_mem _ hbody', hn⟩

/-- A literal argument is one of the parameters as it stands, and no object. A block argument is
the block of an object among them. -/
theorem argument_of_mem {object : Json} {draws : Draws} {items : List Json} {a : Argument}
    (h : a ∈ (Json.roles object draws (.arr items)).arguments) :
    (∃ v ∈ items, a = .literal v ∧ ∀ fields, v ≠ .obj fields) ∨
      ∃ p ∈ draws.deal items, ∃ m, (Json.roles object p.1 p.2).block = some m ∧ a = .block m := by
  rw [Json.roles, itemRoles_eq] at h
  simp only [List.filterMap_map] at h
  obtain ⟨p, hp, ha⟩ := List.mem_filterMap.mp h
  simp only [Function.comp_apply] at ha
  unfold Roles.argument? at ha
  split at ha
  · cases ha
  · obtain ⟨m, hm, rfl⟩ := Option.map_eq_some_iff.mp ha
    exact .inr ⟨p, hp, m, hm, rfl⟩
  · rename_i hobj
    cases ha
    exact .inl ⟨p.2, Draws.mem_of_mem_deal hp, rfl, hobj⟩

theorem traced_arr {object : Json} {draws : Draws} {items : List Json}
    (h : ∀ v ∈ items, ∀ d, Traced object d v) : Traced object draws (.arr items) := by
  refine ⟨?_, ?_, ?_, ?_⟩
  · intro m hm
    rw [Json.roles] at hm
    cases hm
  · rintro _ heq n hn
    cases heq
    rw [Json.roles, itemRoles_eq, Node.walkAll_eq] at hn
    simp only [List.filterMap_map] at hn
    obtain ⟨m, hm, hn⟩ := List.mem_flatMap.mp hn
    obtain ⟨p, hp, hblock⟩ := List.mem_filterMap.mp hm
    have hp := Draws.mem_of_mem_deal hp
    exact (h p.2 hp p.1).block m hblock n hn items hp
  · rintro _ heq n hn
    cases heq
    obtain ⟨m, hm, hn⟩ := Argument.exists_of_mem_walkAll hn
    rcases argument_of_mem hm with ⟨v, -, hliteral, -⟩ | ⟨p, hp, m', hblock, heq⟩
    · cases hliteral
    · cases heq
      have hp := Draws.mem_of_mem_deal hp
      exact (h p.2 hp p.1).block m hblock n hn items hp
  · rintro _ heq n hn
    cases heq
    obtain ⟨body, hbody, hn⟩ := Node.exists_of_mem_walkBranches hn
    rw [Json.roles, itemRoles_eq] at hbody
    simp only [List.map_map] at hbody
    obtain ⟨⟨d, v⟩, hp, rfl⟩ := List.mem_map.mp hbody
    have hv := Draws.mem_of_mem_deal hp
    cases v with
    | arr stack => exact ⟨stack, hv, (h _ hv d).stack stack rfl n hn⟩
    | _ => simp [Json.roles, Node.walkAll] at hn

theorem traced_obj {object : Json} {draws : Draws} {fields : List (Text × Json)}
    (h : ∀ f ∈ fields, ∀ d, Traced object d f.2) : Traced object draws (.obj fields) := by
  refine ⟨?_, by simp, by simp, by simp⟩
  intro m hm n hn items hitems
  rw [Json.roles] at hm
  obtain ⟨tag, htag, rfl⟩ := Option.map_eq_some_iff.mp hm
  have hblock : HoldsBlock items fields := .member hitems (by rw [htag]; rfl)
  obtain ⟨d, hd⟩ := roleOf_fieldRoles object draws "params" fields
  obtain ⟨d', hd'⟩ := roleOf_fieldRoles object draws "statements" fields
  rcases List.mem_cons.mp hn with rfl | hn
  · exact ⟨draws, fields, tag, hblock, htag, rfl⟩
  · rw [hd, hd'] at hn
    rcases List.mem_append.mp hn with hn | hn
    · cases hparams : field? "params" fields with
      | none => simp [hparams, Json.roles, Argument.walkAll] at hn
      | some v =>
        rw [hparams] at hn
        cases v with
        | arr params =>
          obtain ⟨drawn, inner, t, hinner, ht, rfl⟩ :=
            (h _ (mem_of_field hparams) d).arguments params rfl n hn
          exact ⟨drawn, inner, t, .parameter hblock hparams hinner, ht, rfl⟩
        | _ => simp [Json.roles, Argument.walkAll] at hn
    · cases hstatements : field? "statements" fields with
      | none => simp [hstatements, Json.roles, Node.walkBranches] at hn
      | some v =>
        rw [hstatements] at hn
        cases v with
        | arr branches =>
          obtain ⟨body, hbody, drawn, inner, t, hinner, ht, rfl⟩ :=
            (h _ (mem_of_field hstatements) d').branches branches rfl n hn
          exact ⟨drawn, inner, t, .branch hblock hstatements hbody hinner, ht, rfl⟩
        | _ => simp [Json.roles, Node.walkBranches] at hn

mutual

theorem traced (object : Json) : (v : Json) → ∀ draws, Traced object draws v
  | .arr items => fun _ => traced_arr (traced_items object items)
  | .obj fields => fun _ => traced_obj (traced_fields object fields)
  | .null | .bool _ | .int _ | .double _ | .str _ => fun _ =>
    ⟨by simp [Json.roles], by simp, by simp, by simp⟩

theorem traced_items (object : Json) :
    (items : List Json) → ∀ v ∈ items, ∀ draws, Traced object draws v
  | [] => by simp
  | v :: rest => List.forall_mem_cons.mpr ⟨traced object v, traced_items object rest⟩

theorem traced_fields (object : Json) :
    (fields : List (Text × Json)) → ∀ f ∈ fields, ∀ draws, Traced object draws f.2
  | [] => by simp
  | (_, v) :: rest => List.forall_mem_cons.mpr ⟨traced object v, traced_fields object rest⟩

end

/-- Every node of a script is that of a raw block in one of its stacks. -/
theorem made_of_mem_scriptNodes {object : Json} {draws : Draws} {script : Json} {n : Node}
    (h : n ∈ scriptNodes object draws script) : ∃ threads items, readScript script = some threads ∧
      .arr items ∈ threads ∧ n.MadeIn object items := by
  unfold scriptNodes at h
  obtain ⟨⟨d, stack⟩, hs, hn⟩ := List.mem_flatMap.mp h
  have hstack := Draws.mem_of_mem_deal hs
  cases hscript : readScript script with
  | none => simp [hscript] at hstack
  | some threads =>
    rw [hscript] at hstack
    cases stack with
    | arr items => exact ⟨threads, items, rfl, hstack, (traced object _ d).stack items rfl n hn⟩
    | _ => simp [Json.roles, Node.walkAll] at hn

/-! ## Texts of nodes -/

section Texts

variable {items : List Json} {fields : List (Text × Json)}

instance (v : Json) : Decidable v.IsWritable := inferInstanceAs (Decidable (∀ t ∈ v.texts, _))

theorem writable_of_mem (h : (Json.arr items).IsWritable) {v : Json} (hv : v ∈ items) :
    v.IsWritable := by
  induction items with
  | nil => cases hv
  | cons w rest ih =>
    rw [writable_arr_cons] at h
    rcases List.mem_cons.mp hv with rfl | hv
    · exact h.1
    · exact ih h.2 hv

theorem noHalf_of_textField (h : (Json.obj fields).IsWritable) {key t : Text}
    (ht : textField? key fields = some t) : t.NoHalf := by
  obtain ⟨v, hv, hvt⟩ := Option.bind_eq_some_iff.mp ht
  cases v with
  | str t' =>
    cases hvt
    exact writable_of_field h hv t List.mem_cons_self
  | _ => cases hvt

/-- What can be saved holds only blocks that can be. -/
theorem writable_of_holdsBlock (h : HoldsBlock items fields)
    (hitems : (Json.arr items).IsWritable) :
    (Json.obj fields).IsWritable := by
  induction h with
  | member hmem => exact writable_of_mem hitems hmem
  | parameter _ hparams _ ihouter ihinner =>
    exact ihinner (writable_of_field (ihouter hitems) hparams)
  | branch _ hstatements hbody _ ihouter ihinner =>
    exact ihinner (writable_of_mem (writable_of_field (ihouter hitems) hstatements) hbody)

end Texts

theorem mem_of_after {start t rest : Text} (h : Text.after? start t = some rest) :
    ∀ g ∈ rest, g ∈ t := by
  induction start generalizing t with
  | nil =>
    cases h
    exact fun g hg => hg
  | cons g' start ih =>
    cases t with
    | nil => cases h
    | cons g'' t =>
      rw [Text.after?] at h
      split at h
      · exact fun g hg => List.mem_cons_of_mem _ (ih h g hg)
      · cases h

theorem mem_of_idAfter {start tag id : Text} (h : Name.idAfter? start tag = some id) :
    ∀ g ∈ id, g ∈ tag := by
  obtain ⟨rest, hrest, h⟩ := Option.bind_eq_some_iff.mp h
  simp only at h
  split at h
  · cases h
  · cases h
    intro g hg
    apply mem_of_after hrest
    rcases eq_dropFinalNewline rest with heq | heq
    · rwa [heq]
    · rw [heq]
      exact List.mem_append_left _ hg

theorem labels_nodeOf (object : Json) (draws : Draws) (tag : Text) (fields : List (Text × Json)) :
    (nodeOf object draws tag fields).labels.function =
      ((textField? "funcId" fields).filter (!·.isEmpty)).or (Name.functionOfTag? tag) ∧
    (nodeOf object draws tag fields).labels.param = Name.paramOfTag? tag :=
  ⟨rfl, rfl⟩

/-- A literal argument of a node is a parameter of its raw block, and no object. -/
theorem literal_nodeOf {object v : Json} {draws : Draws} {tag : Text}
    {fields : List (Text × Json)}
    (h : Argument.literal v ∈ (nodeOf object draws tag fields).arguments) :
    ∃ params, field? "params" fields = some (.arr params) ∧ v ∈ params ∧
      ∀ inner, v ≠ .obj inner := by
  change _ ∈ (roleOf "params" (Json.fieldRoles object draws fields)).arguments at h
  obtain ⟨d, hd⟩ := roleOf_fieldRoles object draws "params" fields
  rw [hd] at h
  cases hparams : field? "params" fields with
  | none => simp [hparams, Json.roles] at h
  | some w =>
    rw [hparams] at h
    cases w with
    | arr params =>
      rcases argument_of_mem h with ⟨w, hw, heq, hobj⟩ | ⟨w, -, m, -, heq⟩
      · cases heq
        exact ⟨params, rfl, hw, hobj⟩
      · cases heq
    | _ => simp [Json.roles] at h

theorem literal_mem_arguments {n : Node} {v : Json} (h : n.literal 0 = v) (hv : v ≠ .null) :
    Argument.literal v ∈ n.arguments := by
  change ((n.arguments[0]?).bind Argument.literal?).getD .null = v at h
  cases ha : n.arguments[0]? with
  | none =>
    rw [ha] at h
    exact absurd h.symm hv
  | some a =>
    rw [ha] at h
    cases a with
    | literal w =>
      cases h
      exact List.mem_of_getElem? ha
    | block m => exact absurd h.symm hv

/-- The ids of a node are texts of its raw block. -/
theorem noHalf_ids {object : Json} {draws : Draws} {tag : Text} {fields : List (Text × Json)}
    (htag : textField? "type" fields = some tag) (h : (Json.obj fields).IsWritable) :
    ∀ id ∈ (nodeOf object draws tag fields).ids, id.NoHalf := by
  have hafter : ∀ {start id : Text}, Name.idAfter? start tag = some id → id.NoHalf :=
    fun hid g hg => noHalf_of_textField h htag g (mem_of_idAfter hid g hg)
  intro id hid
  simp only [Node.ids, List.mem_append, Option.mem_toList,
    (labels_nodeOf object draws tag fields).1, (labels_nodeOf object draws tag fields).2] at hid
  rcases hid with (hid | hid) | hid
  · rcases Option.or_eq_some_iff.mp hid with hid | ⟨-, hid⟩
    · exact noHalf_of_textField h (Option.filter_eq_some_iff.mp hid).1
    · exact hafter hid
  · rcases Option.or_eq_some_iff.mp hid with hid | ⟨-, hid⟩
    · exact hafter hid
    · exact hafter hid
  · obtain ⟨v, hv, htext⟩ := Option.bind_eq_some_iff.mp hid
    cases v with
    | str t =>
      cases htext
      obtain ⟨params, hparams, hmem, -⟩ :=
        literal_nodeOf (literal_mem_arguments (Node.literal_of_localId hv).1 (by simp))
      exact writable_of_mem (writable_of_field h hparams) hmem id List.mem_cons_self
    | _ => cases htext

/-- The types of the blocks that look up a literal of theirs. -/
def lookupTags : List Text :=
  ["calc_basic", "boolean_basic_operator", "boolean_and_or", "change_string_case",
   "coordinate_object"]

theorem tag_mem_lookupTags {kind : ValueKind} (h : kind.looksUp = true) :
    Text.ofString kind.tag ∈ lookupTags := by
  cases kind <;> first | exact absurd h (by decide) | decide

theorem id_ofBlock {object functionId : Json} {draws : Draws} {tag : Text}
    {fields : List (Text × Json)} {f : Function}
    (h : Function.ofBlock object functionId draws tag fields = .ok f) {id : Text}
    (hid : f.id = .str id) :
    functionId = .str id ∨ (∃ key, field? key fields = some (.str id)) ∨ id = [] := by
  obtain ⟨params, -, h⟩ := ok_of_bind_ok h
  obtain ⟨locals, -, h⟩ := ok_of_bind_ok h
  cases h
  have hgetD : ∀ key, (field? key fields).getD .null = .str id →
      field? key fields = some (.str id) := by
    intro key hkey
    cases hfield : field? key fields with
    | none => simp [hfield] at hkey
    | some v => rw [← hkey, hfield, Option.getD_some]
  simp only [firstGiven] at hid
  split at hid
  · exact .inl hid
  · split at hid
    · exact .inr (.inl ⟨_, hgetD _ hid⟩)
    · split at hid
      · exact .inr (.inl ⟨_, hgetD _ hid⟩)
      · cases hid
        exact .inr (.inr rfl)

/-! ## Every script -/

/-- Nothing in the raw values stops the work on them: no text holds a half, and no block that looks
up a literal has a list among its parameters. -/
structure Harmless (threads : List Json) : Prop where
  texts : (Json.arr threads).IsWritable
  literals : ∀ items, .arr items ∈ threads → ∀ fields, HoldsBlock items fields →
    ∀ tag ∈ lookupTags, textField? "type" fields = some tag →
    ∀ params, field? "params" fields = some (.arr params) → ∀ vs, .arr vs ∉ params

theorem not_causedIn {script : Json}
    (h : ∀ threads, readScript script = some threads → Harmless threads) (object : Json)
    (draws : Draws) (f : Fault) :
    ¬ CausedIn (scriptNodes object draws script) f := by
  rintro ⟨n, hn, hcause⟩
  obtain ⟨threads, items, hscript, hitems, d, fields, tag, hblock, htag, rfl⟩ :=
    made_of_mem_scriptNodes hn
  have hharmless := h threads hscript
  have hwritable := writable_of_holdsBlock hblock (writable_of_mem hharmless.texts hitems)
  cases hcause with
  | tag hkey => cases hkey
  | id hid he =>
    rw [Text.encodeError_eq_none_iff.mpr (noHalf_ids htag hwritable _ hid)] at he
    cases he
  | @literal t kind v heq hkind hlooks hliteral hkey =>
    cases heq
    obtain ⟨params, hparams, hmem, hobj⟩ := literal_nodeOf hliteral
    have htags : tag ∈ lookupTags := by
      rw [← ValueKind.tag_of_ofTag hkind]
      exact tag_mem_lookupTags hlooks
    cases v with
    | arr vs =>
      exact hharmless.literals items hitems fields hblock tag htags htag params hparams vs hmem
    | obj inner => exact hobj inner rfl
    | _ => cases hkey

theorem encodable_function {draws : Draws} {script object functionId : Json} {p : Program}
    (h : ∀ threads, readScript script = some threads → Harmless threads)
    (hfunction : functionId.IsWritable)
    (hbuild : Program.build draws script object functionId = .ok p)
    {f : Function} (hf : .function f ∈ p) (e : Fault) : ¬ f.id.Unencodable e := by
  obtain ⟨⟨d, stack⟩, hs, hdecl⟩ := stack_of_build hbuild hf
  have hstack := Draws.mem_of_mem_deal hs
  rcases ofStack_cases isStartTag object functionId d stack with
    heq | ⟨fields, rest, tag, rfl, -, heq | heq⟩ <;> rw [heq] at hdecl
  · cases hdecl
  · cases hdecl
  · obtain ⟨f', hf', hdecl⟩ := ok_of_bind_ok hdecl
    cases hdecl
    have hwritable : (Json.obj fields).IsWritable := by
      cases hscript : readScript script with
      | none => simp [hscript] at hstack
      | some threads =>
        rw [hscript] at hstack
        exact writable_of_mem (writable_of_mem (h threads hscript).texts hstack) List.mem_cons_self
    intro hid
    cases heq : f.id with
    | str id =>
      have hnoHalf : id.NoHalf := by
        rcases id_ofBlock hf' heq with rfl | ⟨key, hkey⟩ | rfl
        · exact hfunction id List.mem_cons_self
        · exact writable_of_field hwritable hkey id List.mem_cons_self
        · exact Text.noHalf_nil
      rw [heq] at hid
      cases hid with
      | of he =>
        rw [Text.encodeError_eq_none_iff.mpr hnoHalf] at he
        cases he
    | _ =>
      rw [heq] at hid
      cases hid

/-- A script has a source whatever its shape: whatever is missing, null, nested or of another type
in it. Only halves in texts, and lists in the place of literals that are looked up, are excluded. -/
theorem every_script_has_a_source (u : WorkUnit) (draws : Draws)
    (hindent : u.indent.whole?.isSome = true) (hfunction : ∀ id ∈ u.function, id.NoHalf)
    (hscript : ∀ threads, readScript (.str u.script) = some threads → Harmless threads) :
    ∃ source, u.source draws = .ok source := by
  have hid : ((u.function.map Json.str).getD .null).IsWritable := by
    cases hu : u.function with
    | none => simp [Json.IsWritable, Json.texts]
    | some id =>
      intro t ht
      rw [List.mem_singleton.mp ht]
      exact hfunction id hu
  obtain ⟨p, hbuild⟩ :=
    (errsOnly_build draws (.str u.script) u.object ((u.function.map .str).getD .null)).ok
      (not_causedIn hscript u.object draws)
  obtain ⟨width, hwidth⟩ : ∃ width, indentWidth u.indent = .ok width := by
    obtain ⟨n, hn⟩ := Option.isSome_iff_exists.mp hindent
    exact ⟨n.toNat, by rw [indentWidth, hn]⟩
  obtain ⟨source, hsource⟩ := (errsOnly_source { width } hbuild).ok fun e he => by
    rcases he with he | ⟨f, hf, he⟩
    · exact not_causedIn hscript u.object draws e he
    · exact encodable_function hscript hid hbuild hf e he
  refine ⟨source, ?_⟩
  unfold WorkUnit.source
  rw [hbuild]
  change (indentWidth u.indent >>= _) = _
  rw [hwidth]
  exact hsource

theorem not_holdsBlock {items : List Json} {fields : List (Text × Json)}
    (h : ∀ fields, .obj fields ∈ items → textField? "type" fields = none) :
    ¬ HoldsBlock items fields := by
  intro hblock
  induction hblock with
  | member hmem htag =>
    rw [h _ hmem] at htag
    cases htag
  | parameter _ _ _ ih => exact ih h
  | branch _ _ _ _ ih => exact ih h

/-- A stack with no key for its event, a list for a distance, a branch that is none, and an
operation without operator and operands. -/
def oddStack : List Json :=
  [.obj [("type", .str "when_some_key_pressed")],
   .obj [("type", .str "move_x"), ("params", .arr [.arr [.int 1]]), ("statements", .arr [.int 3])],
   .obj [("type", .str "calc_basic"), ("params", .arr [.obj [("type", .int 7)], .null])]]

def oddScript : Text :=
  "[[\x7b\"type\":\"when_some_key_pressed\"\x7d,\x7b\"type\":\"move_x\",\"params\":[[1]],"
    ++ "\"statements\":[3]\x7d,\x7b\"type\":\"calc_basic\","
    ++ "\"params\":[\x7b\"type\":7\x7d,null]\x7d],5]"

theorem read_oddScript : readScript (.str oddScript) = some [.arr oddStack, .int 5] := by
  decide +kernel

theorem mem_oddStack {fields : List (Text × Json)} (h : HoldsBlock oddStack fields) :
    .obj fields ∈ oddStack := by
  generalize hitems : oddStack = items at h ⊢
  induction h with
  | member hmem => exact hmem
  | @parameter items params outer fields _ hparams hinner ih =>
    subst hitems
    refine absurd hinner (not_holdsBlock ?_)
    have houter := ih rfl
    simp only [oddStack, List.mem_cons, Json.obj.injEq, List.not_mem_nil, or_false] at houter
    rcases houter with rfl | rfl | rfl <;> cases hparams
    · simp
    · intro fields hfields
      simp only [List.mem_cons, Json.obj.injEq, reduceCtorEq, List.not_mem_nil, or_false] at hfields
      rw [hfields]
      rfl
  | @branch items branches body outer fields _ hstatements hbody hinner ih =>
    subst hitems
    have houter := ih rfl
    simp only [oddStack, List.mem_cons, Json.obj.injEq, List.not_mem_nil, or_false] at houter
    rcases houter with rfl | rfl | rfl <;> cases hstatements
    simp at hbody

theorem odd_script_has_a_source :
    let u : WorkUnit := { id := "a", name := "a", script := oddScript, path := "script/a.js" }
    readScript (.str oddScript) = some [.arr oddStack, .int 5] ∧ Harmless [.arr oddStack, .int 5] ∧
    ∃ source, u.source (.all 0) = .ok source := by
  intro u
  have hharmless : Harmless [.arr oddStack, .int 5] := by
    refine ⟨by decide +kernel, ?_⟩
    intro items hitems fields hblock tag htag htype params hparams vs
    obtain rfl : items = oddStack := by simpa using hitems
    have hmem := mem_oddStack hblock
    simp only [oddStack, List.mem_cons, Json.obj.injEq, List.not_mem_nil, or_false] at hmem
    rcases hmem with rfl | rfl | rfl <;> cases hparams
    · cases htype
      exact absurd htag (by decide)
    · simp
  refine ⟨read_oddScript, hharmless, every_script_has_a_source u (.all 0) rfl (by simp [u]) ?_⟩
  intro threads hthreads
  rw [read_oddScript] at hthreads
  cases hthreads
  exact hharmless

end BlockScript
