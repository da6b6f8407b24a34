-- The head of a function definition. Its fields are wrapped one inside the other,
-- and the parameters of the function are those of the chain, in the order of the
-- fields.
import BlockScript.Proofs.Conversion
import BlockScript.Proofs.Linking

namespace BlockScript

/-! ## Fields -/

/-- The id of a parameter: not empty, on one line and without halves. -/
structure ParamId where
  text : Text
  nonempty : text ≠ []
  noNewline : text.NoNewline
  noHalf : text.NoHalf

/-- A field in the head of a definition. -/
inductive Field where
  | label (text : Text)
  | string (id : ParamId)
  | boolean (id : ParamId)

namespace Field

/-- The parameter that a field declares. A label declares none. -/
def param? : Field → Option Text
  | label _ => none
  | string id | boolean id => some id.text

/-- The type of the block that wraps the field. -/
def tag : Field → Text
  | label _ => "function_field_label"
  | string _ => "function_field_string"
  | boolean _ => "function_field_boolean"

/-- What the wrapper holds: the text of the label, or a block that stands for the parameter. -/
def Content : Field → Json → Prop
  | label text, v => v = .str text
  | string id, v => v.blockTag? = some (Text.ofString "stringParam_" ++ id.text)
  | boolean id, v => v.blockTag? = some (Text.ofString "booleanParam_" ++ id.text)

end Field

/-- The parameters of a raw block, without nulls and whatever else makes no argument. -/
def Json.parameters (b : Json) : List Json := (b.get "params").items.filter Json.isParameter

/-- The raw block wraps a field and, after what it holds for it, the fields that follow. -/
inductive Wraps : Field → List Field → Json → Prop
  | last {f : Field} {b v : Json} : b.blockTag? = some f.tag → b.parameters = [v] →
      f.Content v → Wraps f [] b
  | more {f g : Field} {rest : List Field} {b v next : Json} : b.blockTag? = some f.tag →
      b.parameters = [v, next] → f.Content v → Wraps g rest next → Wraps f (g :: rest) b

/-- A raw block that wraps a field. -/
def Json.isWrapper (b : Json) : Bool :=
  (b.blockTag?.map (·.startsWith "function_field_")).getD false

/-- The head of a definition spells out the fields: the first wrapper among its parameters wraps
them all, and without fields there is none. -/
def HasFields (b : Json) : List Field → Prop
  | [] => ∀ v ∈ b.parameters, v.isWrapper = false
  | f :: rest => ∃ before w after, b.parameters = before ++ w :: after ∧
      (∀ v ∈ before, v.isWrapper = false) ∧ Wraps f rest w

/-! ## Wrappers -/

theorem idAfter_append (start : Text) (id : ParamId) :
    Name.idAfter? start (start ++ id.text) = some id.text := by
  unfold Name.idAfter?
  rw [after_append]
  have hline : Glyph.char '\n' ∉ id.text := id.noNewline
  simp [dropFinalNewline_eq hline, id.nonempty, hline]

section Wrappers

variable {object b : Json} {n : Node}

theorem tag_of_blockTag {tag : Text} (h : IsNodeOf object b n) (htag : b.blockTag? = some tag) :
    n.tag = .str tag := by
  obtain ⟨-, fields, t, rfl, ht, rfl⟩ := isNodeOf_cases h
  change textField? "type" fields = some tag at htag
  rw [ht] at htag
  cases htag
  rfl

theorem isField_eq (h : IsNodeOf object b n) : n.isField = b.isWrapper := by
  obtain ⟨tag, htag⟩ := Option.isSome_iff_exists.mp h.1
  rw [Node.isField, tag_of_blockTag h htag, Json.isWrapper, htag]
  rfl

theorem param_eq (h : IsNodeOf object b n) {tag : Text} (htag : b.blockTag? = some tag) :
    n.labels.param = Name.paramOfTag? tag := by
  obtain ⟨-, fields, t, rfl, ht, rfl⟩ := isNodeOf_cases h
  change textField? "type" fields = some tag at htag
  rw [ht] at htag
  cases htag
  rfl

theorem isWrapper_of_tag {f : Field} (h : b.blockTag? = some f.tag) : b.isWrapper = true := by
  rw [Json.isWrapper, h]
  cases f <;> rfl

theorem not_isWrapper_of_content {f : Field} {v : Json} (h : f.Content v) :
    v.isWrapper = false := by
  cases f with
  | label text =>
    cases h
    rfl
  | string id | boolean id =>
    rw [Json.isWrapper, h]
    rfl

/-- Looking for a wrapper passes whatever is none. -/
theorem fieldChain_cons {v : Json} {a : Argument} (ha : IsArgumentOf object v a)
    (hv : v.isWrapper = false) (rest : List Argument) :
    Argument.fieldChain (a :: rest) = Argument.fieldChain rest := by
  cases ha with
  | literal => rfl
  | block hn => rw [Argument.fieldChain, isField_eq hn, hv, if_neg Bool.false_ne_true]

/-- Looking for a wrapper stops at the first one, and goes on inside it. -/
theorem fieldChain_wrapper {a : Argument} (ha : IsArgumentOf object b a)
    (hb : b.isWrapper = true) :
    ∃ n, IsNodeOf object b n ∧
      ∀ rest, Argument.fieldChain (a :: rest) = n :: Argument.fieldChain n.arguments := by
  cases ha with
  | literal hnull hobj =>
    cases b with
    | obj fields => exact absurd rfl (hobj fields)
    | _ => cases hb
  | @block n hn =>
    refine ⟨n, hn, fun rest => ?_⟩
    rw [Argument.fieldChain, isField_eq hn, if_pos hb]
    cases n
    rfl

/-- A wrapper declares the parameter that it holds first. -/
theorem fieldParam_eq {f : Field} {v : Json} {a : Argument} {more : List Argument}
    (hn : IsNodeOf object b n) (htag : b.blockTag? = some f.tag) (hv : f.Content v)
    (ha : IsArgumentOf object v a) (harguments : n.arguments = a :: more) :
    n.fieldParamId? = f.param? := by
  have hparam : ∀ start id, v.blockTag? = some (start ++ ParamId.text id) →
      Name.paramOfTag? (start ++ id.text) = some id.text →
      ((n.arguments.filterMap Argument.block?).findSome? Node.drawnParam?).map Prod.fst
        = some id.text := by
    intro start id hleaf hid
    rw [harguments]
    cases ha with
    | literal hnull hobj =>
      cases v with
      | obj fields => exact absurd rfl (hobj fields)
      | _ => cases hleaf
    | @block leaf hleafNode =>
      have hparam : leaf.param? = some id.text := by
        rw [Node.param?, param_eq hleafNode hleaf, hid]
        simp [id.nonempty]
      simp [Argument.block?, Node.drawnParam?, hparam]
  unfold Node.fieldParamId? Node.fieldParam?
  rw [tag_of_blockTag hn htag]
  cases f with
  | label text => rfl
  | string id =>
    exact hparam _ id hv (by rw [Name.paramOfTag?, idAfter_append]; rfl)
  | boolean id =>
    exact hparam _ id hv (by rw [Name.paramOfTag?, idAfter_append]; rfl)

end Wrappers

/-! ## Chains -/

section Chains

variable {object : Json}

/-- The parameters of the chain that hangs off the arguments. -/
def Argument.chainParams (arguments : List Argument) : List Text :=
  (Argument.fieldChain arguments).filterMap Node.fieldParamId?

/-- A wrapper adds the parameter of its field to those of the chain after what it holds for it. -/
theorem chainParams_of_content {f : Field} {b v : Json} {more : List Json} {n : Node}
    (hn : IsNodeOf object b n) (htag : b.blockTag? = some f.tag)
    (hparams : b.parameters = v :: more) (hv : f.Content v) :
    ∃ rest, List.Forall₂ (IsArgumentOf object) more rest ∧
      (n :: Argument.fieldChain n.arguments).filterMap Node.fieldParamId?
        = f.param?.toList ++ Argument.chainParams rest := by
  have harguments := forall₂_arguments hn
  rw [show (b.get "params").items.filter Json.isParameter = v :: more from hparams] at harguments
  obtain ⟨a, rest, ha, hrest, heq⟩ := List.forall₂_cons_left_iff.mp harguments
  refine ⟨rest, hrest, ?_⟩
  rw [List.filterMap_cons, fieldParam_eq hn htag hv ha heq, heq,
    fieldChain_cons ha (not_isWrapper_of_content hv), Argument.chainParams]
  cases f.param? <;> rfl

theorem chainParams_of_wraps {f : Field} {rest : List Field} {b : Json} (h : Wraps f rest b)
    {a : Argument} (ha : IsArgumentOf object b a) (more : List Argument) :
    Argument.chainParams (a :: more) = (f :: rest).filterMap Field.param? := by
  induction h generalizing a more with
  | @last f b v htag hparams hv =>
    obtain ⟨n, hn, hchain⟩ := fieldChain_wrapper ha (isWrapper_of_tag htag)
    obtain ⟨arguments, hnone, heq⟩ := chainParams_of_content hn htag hparams hv
    cases hnone
    rw [Argument.chainParams, hchain, heq, List.filterMap_cons]
    cases f.param? <;> rfl
  | @more f g rest b v next htag hparams hv hnext ih =>
    obtain ⟨n, hn, hchain⟩ := fieldChain_wrapper ha (isWrapper_of_tag htag)
    obtain ⟨arguments, hone, heq⟩ := chainParams_of_content hn htag hparams hv
    obtain ⟨a', arguments, ha', hnone, rfl⟩ := List.forall₂_cons_left_iff.mp hone
    rw [Argument.chainParams, hchain, heq, ih ha' arguments]
    simp only [List.filterMap_cons]
    cases f.param? <;> rfl

theorem chainParams_of_before {before ws : List Json} {arguments : List Argument}
    (h : List.Forall₂ (IsArgumentOf object) (before ++ ws) arguments)
    (hbefore : ∀ v ∈ before, v.isWrapper = false) :
    ∃ rest, List.Forall₂ (IsArgumentOf object) ws rest ∧
      Argument.chainParams arguments = Argument.chainParams rest := by
  induction before generalizing arguments with
  | nil => exact ⟨arguments, h, rfl⟩
  | cons v before ih =>
    rw [List.forall_mem_cons] at hbefore
    obtain ⟨a, more, ha, hmore, rfl⟩ := List.forall₂_cons_left_iff.mp h
    obtain ⟨rest, hrest, heq⟩ := ih hmore hbefore.2
    refine ⟨rest, hrest, ?_⟩
    rw [← heq, Argument.chainParams, fieldChain_cons ha hbefore.1]
    rfl

/-- The parameters of a definition are those of its fields. -/
theorem chainParams_of_hasFields {b : Json} {chain : List Field} (h : HasFields b chain)
    {n : Node} (hn : IsNodeOf object b n) :
    n.fieldChain.filterMap Node.fieldParamId? = chain.filterMap Field.param? := by
  have hchain : n.fieldChain.filterMap Node.fieldParamId? = Argument.chainParams n.arguments := by
    cases n
    rfl
  have harguments : List.Forall₂ (IsArgumentOf object) b.parameters n.arguments :=
    forall₂_arguments hn
  rw [hchain]
  cases chain with
  | nil =>
    rw [← List.append_nil b.parameters] at harguments
    obtain ⟨rest, hrest, heq⟩ := chainParams_of_before harguments h
    cases hrest
    exact heq
  | cons f fields =>
    obtain ⟨before, w, after, hparams, hbefore, hw⟩ := h
    rw [hparams] at harguments
    obtain ⟨rest, hrest, heq⟩ := chainParams_of_before harguments hbefore
    obtain ⟨a, more, ha, -, rfl⟩ := List.forall₂_cons_left_iff.mp hrest
    rw [heq, chainParams_of_wraps hw ha]

end Chains

/-! ## Parameters -/

theorem noHalf_of_param {chain : List Field} {id : Text} (h : id ∈ chain.filterMap Field.param?) :
    id.NoHalf := by
  obtain ⟨f, -, hf⟩ := List.mem_filterMap.mp h
  cases f with
  | label text => cases hf
  | string p | boolean p =>
    cases hf
    exact p.noHalf

/-- The parameters of a function are named after the parameter fields in the head of its
definition, in their order, and no such field stops the script from building. -/
theorem parameters_follow_the_fields (draws : Draws) (script object functionId : Json)
    {s : Draws × Json} (hs : s ∈ draws.deal ((readScript script).getD [])) {tag : Text}
    {fields : List (Text × Json)} (hdefines : Defines s.2 tag fields) {chain : List Field}
    (hchain : HasFields (.obj fields) chain) :
    (∀ p, Program.build draws script object functionId = .ok p →
      ∃ f, .function f ∈ p ∧ Function.ofBlock object functionId s.1.first tag fields = .ok f ∧
        List.Forall₂ (fun id name => ∃ drawn, Name.ofParam (.str id) drawn = .ok name)
          (chain.filterMap Field.param?) f.params) ∧
    ((∀ s' ∈ draws.deal ((readScript script).getD []), ∀ tag' fields', Defines s'.2 tag' fields' →
        ∀ id ∈ (nodeOf object s'.1.first tag' fields').declaredIds,
          id ∉ chain.filterMap Field.param? → ¬ Name.Unwritable id) →
      ∃ p, Program.build draws script object functionId = .ok p) := by
  constructor
  · intro p hp
    obtain ⟨f, hf, hmem⟩ := ofBlock_of_defines hp hs hdefines
    refine ⟨f, hmem, hf, ?_⟩
    obtain ⟨params, hparams, h⟩ := ok_of_bind_ok hf
    obtain ⟨locals, -, h⟩ := ok_of_bind_ok h
    cases h
    have hids : ∀ nodes : List Node, nodes.filterMap Node.fieldParamId?
        = (nodes.filterMap Node.fieldParam?).map Prod.fst := by
      intro nodes
      rw [List.map_filterMap]
      rfl
    rw [← chainParams_of_hasFields hchain (isNodeOf_of_tag s.1.first hdefines.type), hids,
      List.forall₂_map_left_iff]
    exact (forall₂_of_mapM_ok hparams).imp fun p name hname => ⟨p.2, eq_ok_of_written hname⟩
  · intro h
    apply (errsOnly_build_declared draws script object functionId).ok
    rintro f ⟨s', hs', tag', fields', hdefines', id, hid, hunwritable, -⟩
    by_cases hparam : id ∈ chain.filterMap Field.param?
    · exact hunwritable.2 (noHalf_of_param hparam)
    · exact h s' hs' tag' fields' hdefines' id hid hparam hunwritable

def amountId : ParamId := ⟨"x7", by decide, by decide, by decide⟩

def strictId : ParamId := ⟨"b1", by decide, by decide, by decide⟩

/-- A definition with the head "move by (x7) steps (b1)" and nulls between its slots. -/
def moveDefinition : List (Text × Json) :=
  [("type", .str "function_create_value"), ("params", .arr [.null,
    .obj [("type", .str "function_field_label"), ("params", .arr [.str "move by",
      .obj [("type", .str "function_field_string"), ("params", .arr [.null,
        .obj [("type", .str "stringParam_x7")],
        .obj [("type", .str "function_field_label"), ("params", .arr [.str "steps", .null,
          .obj [("type", .str "function_field_boolean"), ("params", .arr [
            .obj [("type", .str "booleanParam_b1")], .null])]])]])]])], .null])]

def moveFields : List Field :=
  [.label "move by", .string amountId, .label "steps", .boolean strictId]

theorem move_has_fields : HasFields (.obj moveDefinition) moveFields :=
  ⟨[], _, [], rfl, by simp,
    .more rfl rfl rfl (.more rfl rfl rfl (.more rfl rfl rfl (.last rfl rfl rfl)))⟩

theorem move_definition_has_its_parameters :
    Defines (.arr [.obj moveDefinition]) valueFunctionTag moveDefinition ∧
    HasFields (.obj moveDefinition) moveFields ∧
    ∃ p f, Program.build (.all 0) (.arr [.arr [.obj moveDefinition]]) .null .null = .ok p ∧
      .function f ∈ p ∧ f.params = [Text.ofString "p_x7", Text.ofString "p_b1"] := by
  have hdefines : Defines (.arr [.obj moveDefinition]) valueFunctionTag moveDefinition :=
    ⟨⟨[], rfl⟩, rfl, .inr rfl⟩
  obtain ⟨hparams, hbuild⟩ := parameters_follow_the_fields (.all 0)
    (.arr [.arr [.obj moveDefinition]]) .null .null (List.mem_singleton.mpr rfl) hdefines
    move_has_fields
  obtain ⟨p, hp⟩ := hbuild fun s hs tag fields h id hid hother => by
    cases List.mem_singleton.mp hs
    obtain ⟨⟨rest, hstack⟩, htag, -⟩ := h
    cases hstack
    cases htag
    exact absurd hid hother
  obtain ⟨f, hf, -, hnames⟩ := hparams p hp
  obtain ⟨amount, more, hamount, hmore, heq⟩ := List.forall₂_cons_left_iff.mp hnames
  obtain ⟨strict, none, hstrict, hnone, rfl⟩ := List.forall₂_cons_left_iff.mp hmore
  obtain ⟨_, hamount⟩ := hamount
  obtain ⟨_, hstrict⟩ := hstrict
  cases hamount
  cases hstrict
  cases hnone
  exact ⟨hdefines, move_has_fields, p, f, hp, hf, heq⟩

end BlockScript
