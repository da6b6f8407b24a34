-- Scripts that build. Whatever a script holds, building it stops only at the id of
-- a parameter or a local variable in a function definition, and only if the id is
-- usable and has no UTF-8 form.
import BlockScript.Proofs.LocalVariables
import BlockScript.Proofs.Totality

namespace BlockScript

/-! ## Ids without a name -/

/-- An id that a name is made from, and that has no UTF-8 form. -/
def Name.Unwritable (id : Text) : Prop := Name.isStable (.str id) = true ∧ ¬ id.NoHalf

/-- The fault of an id without a name. -/
def Name.Stops (id : Text) (f : Fault) : Prop := Name.Unwritable id ∧ (Json.str id).Unencodable f

theorem errsOnly_make (family id : Text) (drawn : Nat) :
    ErrsOnly (Name.Stops id) (written (Name.make family (.str id) drawn)) := by
  intro f hf
  have hunencodable := errsOnly_written family (.str id) drawn f hf
  refine ⟨⟨?_, ?_⟩, hunencodable⟩
  · by_contra hstable
    rw [Bool.not_eq_true] at hstable
    rw [Name.make_unstable family hstable drawn] at hf
    cases hf
  · intro hnoHalf
    cases hunencodable with
    | of he =>
      rw [Text.encodeError_eq_none_iff.mpr hnoHalf] at he
      cases he

theorem noHalf_of_isClean {id : Text} (h : Name.isClean id = true) : id.NoHalf := by
  obtain ⟨body, -, hwords, rfl | rfl⟩ := Name.isClean_iff.mp h
  · exact Text.noHalf_of_isWord hwords
  · rw [Text.noHalf_append]
    exact ⟨Text.noHalf_of_isWord hwords, Text.noHalf_ofString _⟩

theorem not_unwritable_of_make {family id name : Text} {drawn : Nat}
    (h : written (Name.make family (.str id) drawn) = .ok name) : ¬ Name.Unwritable id := by
  rintro ⟨hstable, hhalf⟩
  have hclean : Name.isClean id = false := by
    by_contra hclean
    exact hhalf (noHalf_of_isClean (by simpa using hclean))
  obtain ⟨e, he⟩ : ∃ e, id.encodeError? = some e := by
    rw [← Option.ne_none_iff_exists']
    exact fun hnone => hhalf (Text.encodeError_eq_none_iff.mp hnone)
  have hmake : Name.make family (.str id) drawn = .error e := by
    simp only [Name.make, hstable, hclean, Name.digested, Name.digest, Text.utf8, he]
    rfl
  rw [hmake] at h
  cases h

/-! ## Ids of a definition -/

/-- The id of the parameter that a field declares. -/
def Node.fieldParamId? (n : Node) : Option Text := n.fieldParam?.map Prod.fst

/-- The ids that a definition makes names from: those of its parameters, and those of the local
variables in its body. -/
def Node.declaredIds (n : Node) : List Text :=
  n.fieldChain.filterMap Node.fieldParamId?
    ++ (Node.walkAll (n.branch 0)).filterMap fun m => m.localId?.bind Json.text?

theorem str_of_localId {n : Node} {v : Json} (h : n.localId? = some v) : ∃ id, v = .str id := by
  have hstable : Name.isStable v = true := by
    unfold Node.localId? at h
    split at h
    · split_ifs at h with hname hstable
      cases h
      exact hstable
    · cases h
  cases v with
  | str id => exact ⟨id, rfl⟩
  | _ => cases hstable

theorem errsOnly_localName_of_text {n : Node} {tag : Text} (htag : n.tag = .str tag) :
    ErrsOnly (fun f => ∃ id, n.localId?.bind Json.text? = some id ∧ Name.Stops id f)
      n.localName? := by
  unfold Node.localName?
  split
  · rename_i v hv
    obtain ⟨id, rfl⟩ := str_of_localId hv
    refine errsOnly_bind ((errsOnly_make _ id _).mono fun f hf => ?_) fun _ => errsOnly_ok _
    exact ⟨id, by rw [hv]; rfl, hf⟩
  · rw [htag]
    exact errsOnly_bind (errsOnly_ok _) fun _ => errsOnly_ok _

/-- Every node inside the node of a raw block has a text for its tag. -/
theorem tag_of_mem_walk {object : Json} {draws : Draws} {tag : Text} {fields : List (Text × Json)}
    (htag : textField? "type" fields = some tag) {n : Node}
    (hn : n ∈ (nodeOf object draws tag fields).walk) : ∃ t, n.tag = .str t := by
  obtain ⟨-, inner, t, -, -, rfl⟩ := (traced object (.obj fields) draws).block _
    (roles_obj object draws htag) n hn [.obj fields] List.mem_cons_self
  exact ⟨t, rfl⟩

section Definitions

variable {object functionId : Json} {draws : Draws} {tag : Text} {fields : List (Text × Json)}

/-- A definition stops at one of its ids. -/
theorem errsOnly_ofBlock_declared (htag : textField? "type" fields = some tag) :
    ErrsOnly (fun f => ∃ id ∈ (nodeOf object draws tag fields).declaredIds, Name.Stops id f)
      (Function.ofBlock object functionId draws tag fields) := by
  unfold Function.ofBlock
  refine errsOnly_bind ?_ fun params => errsOnly_bind ?_ fun locals => errsOnly_ok _
  · refine errsOnly_mapM fun p hp => (errsOnly_make _ p.1 p.2).mono fun f hf => ?_
    obtain ⟨field, hfield, hparam⟩ := List.mem_filterMap.mp hp
    refine ⟨p.1, List.mem_append_left _ (List.mem_filterMap.mpr ⟨field, hfield, ?_⟩), hf⟩
    rw [Node.fieldParamId?, hparam, Option.map_some]
  · refine errsOnly_bind (errsOnly_mapM fun n hn => ?_) fun _ => errsOnly_ok _
    obtain ⟨t, ht⟩ := tag_of_mem_walk htag (Node.branch_subset_walk _ 0 hn)
    refine (errsOnly_localName_of_text ht).mono ?_
    rintro f ⟨id, hid, hf⟩
    exact ⟨id, List.mem_append_right _ (List.mem_filterMap.mpr ⟨n, hn, hid⟩), hf⟩

/-- A definition that builds has names for all of its ids. -/
theorem not_unwritable_of_ofBlock {f : Function}
    (h : Function.ofBlock object functionId draws tag fields = .ok f) :
    ∀ id ∈ (nodeOf object draws tag fields).declaredIds, ¬ Name.Unwritable id := by
  obtain ⟨params, hparams, h⟩ := ok_of_bind_ok h
  obtain ⟨locals, hlocals, -⟩ := ok_of_bind_ok h
  intro id hid
  rcases List.mem_append.mp hid with hid | hid
  · obtain ⟨field, hfield, hparam⟩ := List.mem_filterMap.mp hid
    obtain ⟨p, hp, rfl⟩ := Option.map_eq_some_iff.mp hparam
    have hp := List.mem_filterMap.mpr ⟨field, hfield, hp⟩
    obtain ⟨name, -, hname⟩ := exists_of_mem_left (forall₂_of_mapM_ok hparams) hp
    exact not_unwritable_of_make hname
  · obtain ⟨found, hfound, -⟩ := ok_of_bind_ok hlocals
    obtain ⟨n, hn, hlocal⟩ := List.mem_filterMap.mp hid
    obtain ⟨v, hv, htext⟩ := Option.bind_eq_some_iff.mp hlocal
    obtain ⟨made, -, hmade⟩ := exists_of_mem_left (forall₂_of_mapM_ok hfound) hn
    obtain rfl := Json.eq_str_of_text htext
    unfold Node.localName? at hmade
    rw [hv] at hmade
    obtain ⟨name, hname, -⟩ := ok_of_bind_ok hmade
    exact not_unwritable_of_make hname

end Definitions

/-! ## Definitions of a script -/

/-- The block with these fields heads the stack and defines a function. -/
structure Defines (stack : Json) (tag : Text) (fields : List (Text × Json)) : Prop where
  head : ∃ rest, stack = .arr (.obj fields :: rest)
  type : textField? "type" fields = some tag
  isDefinition : tag = plainFunctionTag ∨ tag = valueFunctionTag

theorem not_isStartTag {tag : Text} (h : tag = plainFunctionTag ∨ tag = valueFunctionTag) :
    isStartTag tag = false := by
  rcases h with rfl | rfl <;> decide

theorem ofStack_definition (object functionId : Json) (draws : Draws) {tag : Text}
    {fields : List (Text × Json)} (htag : textField? "type" fields = some tag)
    (hdefinition : tag = plainFunctionTag ∨ tag = valueFunctionTag) (rest : List Json) :
    Declaration.ofStack? isStartTag object functionId draws (.arr (.obj fields :: rest))
      = Function.ofBlock object functionId draws.first tag fields >>=
        fun f => .ok (some (.function f)) := by
  unfold Declaration.ofStack?
  simp only [htag, not_isStartTag hdefinition, if_pos hdefinition]
  rfl

theorem errsOnly_build_declared (draws : Draws) (script object functionId : Json) :
    ErrsOnly (fun f => ∃ s ∈ draws.deal ((readScript script).getD []), ∃ tag fields,
        Defines s.2 tag fields ∧
          ∃ id ∈ (nodeOf object s.1.first tag fields).declaredIds, Name.Stops id f)
      (Program.build draws script object functionId) := by
  unfold Program.build
  refine errsOnly_bind (errsOnly_mapM fun s hs => ?_) fun _ => errsOnly_ok _
  unfold Declaration.ofStack?
  split
  · rename_i fields rest hstack
    split
    · exact errsOnly_ok _
    · rename_i tag htag
      split
      · exact errsOnly_ok _
      · split
        · rename_i hdefinition
          refine errsOnly_bind ?_ fun _ => errsOnly_ok _
          refine (errsOnly_ofBlock_declared htag).mono fun f hf => ?_
          exact ⟨s, hs, tag, fields, ⟨⟨rest, hstack⟩, htag, hdefinition⟩, hf⟩
        · exact errsOnly_ok _
  · exact errsOnly_ok _

theorem ofBlock_of_defines {draws : Draws} {script object functionId : Json} {p : Program}
    (h : Program.build draws script object functionId = .ok p) {s : Draws × Json}
    (hs : s ∈ draws.deal ((readScript script).getD [])) {tag : Text} {fields : List (Text × Json)}
    (hdefines : Defines s.2 tag fields) :
    ∃ f, Function.ofBlock object functionId s.1.first tag fields = .ok f ∧ .function f ∈ p := by
  obtain ⟨⟨rest, hstack⟩, htag, hdefinition⟩ := hdefines
  obtain ⟨found, hfound, h⟩ := ok_of_bind_ok h
  cases h
  obtain ⟨_, hmem, hdecl⟩ := exists_of_mem_left (forall₂_of_mapM_ok hfound) hs
  rw [hstack, ofStack_definition object functionId s.1 htag hdefinition] at hdecl
  obtain ⟨f, hf, hdecl⟩ := ok_of_bind_ok hdecl
  cases hdecl
  exact ⟨f, hf, List.mem_filterMap.mpr ⟨_, hmem, rfl⟩⟩

/-- The ids of a definition are texts of the script. -/
theorem noHalf_of_defines {script object stack : Json} (draws : Draws)
    (hmem : stack ∈ (readScript script).getD []) {tag : Text} {fields : List (Text × Json)}
    (hdefines : Defines stack tag fields)
    (h : ∀ threads, readScript script = some threads → (Json.arr threads).IsWritable) :
    ∀ id ∈ (nodeOf object draws tag fields).declaredIds, id.NoHalf := by
  obtain ⟨⟨rest, rfl⟩, htag, -⟩ := hdefines
  have hwritable : (Json.obj fields).IsWritable := by
    cases hscript : readScript script with
    | none => simp [hscript] at hmem
    | some threads =>
      rw [hscript] at hmem
      exact writable_of_mem (writable_of_mem (h threads hscript) hmem) List.mem_cons_self
  have hids : ∀ m ∈ (nodeOf object draws tag fields).walk, ∀ id ∈ m.ids, id.NoHalf := by
    intro m hm
    obtain ⟨-, inner, t, hinner, ht, rfl⟩ := (traced object (.obj fields) draws).block _
      (roles_obj object draws htag) m hm [.obj fields] List.mem_cons_self
    refine noHalf_ids ht (writable_of_holdsBlock hinner ?_)
    simp [hwritable]
  intro id hid
  rcases List.mem_append.mp hid with hid | hid
  · obtain ⟨field, hfield, hparam⟩ := List.mem_filterMap.mp hid
    obtain ⟨p, hp, rfl⟩ := Option.map_eq_some_iff.mp hparam
    obtain ⟨m, hm, hmem⟩ := Node.mem_of_fieldParam hp
    exact hids m (Node.walk_of_mem_fieldChain _ hfield hm) p.1 hmem
  · obtain ⟨m, hm, hlocal⟩ := List.mem_filterMap.mp hid
    refine hids m (Node.branch_subset_walk _ 0 hm) id ?_
    simp [Node.ids, hlocal]

/-- A script builds, whatever its shape, unless a definition in it has the id of a parameter or a
local variable that is usable and has no UTF-8 form. Building then stops at such an id. In
particular, every script builds that has no half in its texts. -/
theorem scripts_build_unless_an_id_is_unwritable (draws : Draws) (script object functionId : Json) :
    ((∃ p, Program.build draws script object functionId = .ok p) ↔
      ∀ s ∈ draws.deal ((readScript script).getD []), ∀ tag fields, Defines s.2 tag fields →
        ∀ id ∈ (nodeOf object s.1.first tag fields).declaredIds, ¬ Name.Unwritable id) ∧
    (∀ f, Program.build draws script object functionId = .error f →
      ∃ s ∈ draws.deal ((readScript script).getD []), ∃ tag fields, Defines s.2 tag fields ∧
        ∃ id ∈ (nodeOf object s.1.first tag fields).declaredIds, Name.Unwritable id ∧
          ∃ e, id.encodeError? = some e ∧ f = .unencodable e) ∧
    ((∀ threads, readScript script = some threads → (Json.arr threads).IsWritable) →
      ∃ p, Program.build draws script object functionId = .ok p) := by
  have hstops := errsOnly_build_declared draws script object functionId
  refine ⟨⟨?_, ?_⟩, ?_, ?_⟩
  · rintro ⟨p, hp⟩ s hs tag fields hdefines
    obtain ⟨f, hf, -⟩ := ofBlock_of_defines hp hs hdefines
    exact not_unwritable_of_ofBlock hf
  · intro h
    apply hstops.ok
    rintro f ⟨s, hs, tag, fields, hdefines, id, hid, hunwritable, -⟩
    exact h s hs tag fields hdefines id hid hunwritable
  · intro f hf
    obtain ⟨s, hs, tag, fields, hdefines, id, hid, hunwritable, hfault⟩ := hstops f hf
    refine ⟨s, hs, tag, fields, hdefines, id, hid, hunwritable, ?_⟩
    cases hfault with
    | of he => exact ⟨_, he, rfl⟩
  · intro h
    apply hstops.ok
    rintro f ⟨s, hs, tag, fields, hdefines, id, hid, hunwritable, -⟩
    exact hunwritable.2 (noHalf_of_defines _ (Draws.mem_of_mem_deal hs) hdefines h id hid)

/-- A definition whose only parameter has an id with a half in it. -/
def halfParameter : List (Text × Json) :=
  [("type", .str "function_create"),
   ("params", .arr [.obj [("type", .str "function_field_string"),
     ("params", .arr [.obj [("type", .str (Text.ofString "stringParam_a" ++ [.half 0]))]])]])]

def halfParameterScript : Text :=
  "[[\x7b\"type\":\"function_create\",\"params\":[\x7b\"type\":\"function_field_string\","
    ++ "\"params\":[\x7b\"type\":\"stringParam_a\\ud800\"\x7d]\x7d]\x7d]]"

theorem read_halfParameterScript :
    readScript (.str halfParameterScript) = some [.arr [.obj halfParameter]] := by
  decide +kernel

/-- The script is valid JSON, and building it stops. -/
theorem half_in_a_parameter_id_stops_building :
    Program.build (.all 0) (.str halfParameterScript) .null .null
        = .error (.unencodable { first := .half 0, position := 1, count := 1 }) ∧
      ¬ ∃ p, Program.build (.all 0) (.str halfParameterScript) .null .null = .ok p := by
  have hbuild : Program.build (.all 0) (.str halfParameterScript) .null .null
      = .error (.unencodable { first := .half 0, position := 1, count := 1 }) := by
    unfold Program.build
    rw [read_halfParameterScript]
    rfl
  refine ⟨hbuild, ?_⟩
  rintro ⟨p, hp⟩
  rw [hbuild] at hp
  cases hp

end BlockScript
