-- From a raw block to its tree. Every parameter that counts makes one argument,
-- every branch one list of nodes, and the tree holds exactly the blocks that
-- are kept, in the order in which they are met.
import BlockScript.Proofs.LocalVariables
import BlockScript.Proofs.Totality

namespace BlockScript

/-! ## Raw values -/

namespace Json

/-- The members of a list. Any other value has none. -/
def items : Json → List Json
  | .arr items => items
  | _ => []

/-- The parameters that make an argument: all but nulls and objects that are no blocks. -/
def isParameter : Json → Bool
  | .null => false
  | .obj fields => isBlock (.obj fields)
  | _ => true

end Json

/-- What a raw value is read as: one block, a list of blocks or a list of such lists. -/
inductive Reading where
  | block
  | stack
  | branches

mutual

/-- The blocks of a raw value in the order in which they are met: a block before its content, its
parameters before its branches. -/
def Json.blocksAs : Reading → Json → List Json
  | .block, .obj fields =>
    if (textField? "type" fields).isSome then
      .obj fields :: (fieldBlocksAs .stack "params" fields
        ++ fieldBlocksAs .branches "statements" fields)
    else []
  | .stack, .arr items => itemBlocksAs .block items
  | .branches, .arr items => itemBlocksAs .stack items
  | _, _ => []

def itemBlocksAs (how : Reading) : List Json → List Json
  | [] => []
  | v :: rest => v.blocksAs how ++ itemBlocksAs how rest

def fieldBlocksAs (how : Reading) (key : Text) : List (Text × Json) → List Json
  | [] => []
  | (k, v) :: rest => if k = key then v.blocksAs how else fieldBlocksAs how key rest

end

/-- The block and every block that is kept inside it. -/
def Json.keptBlocks (v : Json) : List Json := v.blocksAs .block

theorem itemBlocksAs_eq (how : Reading) (items : List Json) :
    itemBlocksAs how items = items.flatMap (Json.blocksAs how) := by
  induction items with
  | nil => rfl
  | cons v rest ih => rw [itemBlocksAs, ih, List.flatMap_cons]

theorem fieldBlocksAs_eq (how : Reading) (key : Text) (fields : List (Text × Json)) :
    fieldBlocksAs how key fields = ((field? key fields).getD .null).blocksAs how := by
  induction fields with
  | nil => cases how <;> rfl
  | cons f rest ih =>
    obtain ⟨k, v⟩ := f
    rw [fieldBlocksAs, field?]
    split
    · rfl
    · exact ih

/-! ## Nodes of raw blocks -/

/-- The node is the block's, whatever was drawn for its names. -/
def IsNodeOf (object b : Json) (n : Node) : Prop :=
  b.isBlock = true ∧ ∃ draws, Node.ofJson object draws b = .ok n

/-- The argument is the parameter as it stands, or the node of the block that it is. -/
inductive IsArgumentOf (object : Json) : Json → Argument → Prop
  | literal {v : Json} : v ≠ .null → (∀ fields, v ≠ .obj fields) →
      IsArgumentOf object v (.literal v)
  | block {b : Json} {n : Node} : IsNodeOf object b n → IsArgumentOf object b (.block n)

section Nodes

variable {object b : Json} {n : Node}

theorem ofJson_of_tag (draws : Draws) {tag : Text} {fields : List (Text × Json)}
    (h : textField? "type" fields = some tag) :
    Node.ofJson object draws (.obj fields) = .ok (nodeOf object draws tag fields) := by
  obtain ⟨v, hv, hvt⟩ := Option.bind_eq_some_iff.mp h
  obtain rfl := Json.eq_str_of_text hvt
  simp only [Node.ofJson, hv]
  rfl

theorem isNodeOf_of_tag (draws : Draws) {tag : Text} {fields : List (Text × Json)}
    (h : textField? "type" fields = some tag) :
    IsNodeOf object (.obj fields) (nodeOf object draws tag fields) := by
  refine ⟨?_, draws, ofJson_of_tag draws h⟩
  change (textField? "type" fields).isSome = true
  rw [h]
  rfl

theorem isNodeOf_cases (h : IsNodeOf object b n) : ∃ draws fields tag, b = .obj fields ∧
    textField? "type" fields = some tag ∧ n = nodeOf object draws tag fields := by
  obtain ⟨hblock, draws, hn⟩ := h
  cases b with
  | obj fields =>
    obtain ⟨tag, htag⟩ := Option.isSome_iff_exists.mp hblock
    refine ⟨draws, fields, tag, rfl, htag, ?_⟩
    rw [ofJson_of_tag draws htag] at hn
    exact (Except.ok.inj hn).symm
  | _ => cases hblock

/-- A raw value is read as a block exactly if it is one. -/
theorem block_cases (object : Json) (draws : Draws) (v : Json) :
    (v.isBlock = false ∧ (Json.roles object draws v).block = none) ∨
      ∃ n, v.isBlock = true ∧ (Json.roles object draws v).block = some n ∧
        IsNodeOf object v n := by
  cases v with
  | obj fields =>
    cases htag : textField? "type" fields with
    | none =>
      refine .inl ⟨?_, ?_⟩
      · change (textField? "type" fields).isSome = false
        rw [htag]
        rfl
      · simp [Json.roles, htag]
    | some tag =>
      have hnode : IsNodeOf object (.obj fields) _ := isNodeOf_of_tag draws htag
      exact .inr ⟨_, hnode.1, roles_obj object draws htag, hnode⟩
  | _ => exact .inl ⟨rfl, by simp [Json.roles]⟩

theorem tag_of_isNodeOf (h : IsNodeOf object b n) : n.tag = b.get "type" := by
  obtain ⟨-, fields, tag, rfl, htag, rfl⟩ := isNodeOf_cases h
  obtain ⟨v, hv, hvt⟩ := Option.bind_eq_some_iff.mp htag
  obtain rfl := Json.eq_str_of_text hvt
  change Json.str tag = (field? "type" fields).getD .null
  rw [hv]
  rfl

theorem object_of_isNodeOf (h : IsNodeOf object b n) : n.labels.object = object := by
  obtain ⟨-, fields, tag, -, -, rfl⟩ := isNodeOf_cases h
  rfl

theorem arguments_nodeOf {draws : Draws} {tag : Text} {fields : List (Text × Json)} :
    ∃ d, (nodeOf object draws tag fields).arguments =
      (Json.roles object d ((field? "params" fields).getD .null)).arguments := by
  obtain ⟨d, hd⟩ := roleOf_fieldRoles object draws "params" fields
  exact ⟨d, congrArg Roles.arguments hd⟩

theorem branches_nodeOf {draws : Draws} {tag : Text} {fields : List (Text × Json)} :
    ∃ d, (nodeOf object draws tag fields).branches =
      (Json.roles object d ((field? "statements" fields).getD .null)).branches := by
  obtain ⟨d, hd⟩ := roleOf_fieldRoles object draws "statements" fields
  exact ⟨d, congrArg Roles.branches hd⟩

end Nodes

/-! ## Arguments and branches -/

/-- Where the values that are kept are those that give something, whatever is drawn for them, the
lists of both correspond. -/
theorem forall₂_filterMap {α β : Type} {R : α → β → Prop} {p : α → Bool}
    {f : Draws × α → Option β} (draws : Draws) (xs : List α)
    (h : ∀ d x, (p x = false ∧ f (d, x) = none) ∨ ∃ y, p x = true ∧ f (d, x) = some y ∧ R x y) :
    List.Forall₂ R (xs.filter p) ((draws.deal xs).filterMap f) := by
  induction xs generalizing draws with
  | nil => exact .nil
  | cons x rest ih =>
    rw [Draws.deal]
    rcases h draws.first x with ⟨hp, hf⟩ | ⟨y, hp, hf, hxy⟩
    · rw [List.filter_cons_of_neg (by simp [hp]), List.filterMap_cons_none hf]
      exact ih draws.rest
    · rw [List.filter_cons_of_pos hp, List.filterMap_cons_some hf]
      exact .cons hxy (ih draws.rest)

section Roles

variable (object : Json) (draws : Draws)

theorem argument_cases (v : Json) :
    (v.isParameter = false ∧ (Json.roles object draws v).argument? v = none) ∨
      ∃ a, v.isParameter = true ∧ (Json.roles object draws v).argument? v = some a ∧
        IsArgumentOf object v a := by
  cases v with
  | null => exact .inl ⟨rfl, rfl⟩
  | obj fields =>
    rcases block_cases object draws (.obj fields) with ⟨hkept, hblock⟩ | ⟨n, hkept, hblock, hn⟩
    · exact .inl ⟨hkept, by rw [Roles.argument?, hblock]; rfl⟩
    · exact .inr ⟨_, hkept, by rw [Roles.argument?, hblock]; rfl, .block hn⟩
  | _ => exact .inr ⟨_, rfl, rfl, .literal (by simp) (by simp)⟩

theorem stack_forall₂ (v : Json) :
    List.Forall₂ (IsNodeOf object) (v.items.filter Json.isBlock)
      (Json.roles object draws v).stack := by
  cases v with
  | arr items =>
    rw [Json.roles, itemRoles_eq]
    simp only [List.filterMap_map]
    exact forall₂_filterMap draws items (block_cases object)
  | _ => simp [Json.items, Json.roles]

theorem arguments_forall₂ (v : Json) :
    List.Forall₂ (IsArgumentOf object) (v.items.filter Json.isParameter)
      (Json.roles object draws v).arguments := by
  cases v with
  | arr items =>
    rw [Json.roles, itemRoles_eq]
    simp only [List.filterMap_map]
    exact forall₂_filterMap draws items (argument_cases object)
  | _ => simp [Json.items, Json.roles]

theorem branches_forall₂ (v : Json) :
    List.Forall₂ (fun branch body =>
        List.Forall₂ (IsNodeOf object) (branch.items.filter Json.isBlock) body)
      v.items (Json.roles object draws v).branches := by
  cases v with
  | arr items =>
    rw [Json.roles, itemRoles_eq]
    simp only [List.map_map, Json.items]
    nth_rewrite 1 [← draws.map_snd_deal items]
    rw [List.forall₂_map_left_iff, List.forall₂_map_right_iff]
    exact List.forall₂_same.mpr fun s _ => stack_forall₂ object s.1 s.2
  | _ => simp [Json.items, Json.roles]

end Roles

/-! ## Walks -/

section Walks

variable {object : Json}

theorem forall₂_flatMap {α β γ : Type} {R : β → γ → Prop} {f : α → List β}
    {g : Draws × α → List γ} {draws : Draws} {xs : List α}
    (h : ∀ x ∈ xs, ∀ d, List.Forall₂ R (f x) (g (d, x))) :
    List.Forall₂ R (xs.flatMap f) ((draws.deal xs).flatMap g) := by
  induction xs generalizing draws with
  | nil => exact .nil
  | cons x rest ih =>
    rw [Draws.deal, List.flatMap_cons, List.flatMap_cons]
    exact List.rel_append (h x List.mem_cons_self _)
      (ih fun y hy => h y (List.mem_cons_of_mem _ hy))

/-- The blocks that a raw value makes where one block is read. -/
def blockWalk (object : Json) (draws : Draws) (v : Json) : List Node :=
  Node.walkAll (Json.roles object draws v).block.toList

theorem walkAll_filterMap {α : Type} (f : α → Option Node) (xs : List α) :
    Node.walkAll (xs.filterMap f) = xs.flatMap fun x => Node.walkAll (f x).toList := by
  induction xs with
  | nil => rfl
  | cons x rest ih =>
    rw [List.flatMap_cons, ← ih]
    cases hx : f x with
    | none =>
      rw [List.filterMap_cons_none hx]
      rfl
    | some n =>
      rw [List.filterMap_cons_some hx]
      simp [Node.walkAll]

theorem argument_walkAll_filterMap {α : Type} (f : α → Option Argument) (xs : List α) :
    Argument.walkAll (xs.filterMap f) = xs.flatMap fun x => Argument.walkAll (f x).toList := by
  induction xs with
  | nil => rfl
  | cons x rest ih =>
    rw [List.flatMap_cons, ← ih]
    cases hx : f x with
    | none =>
      rw [List.filterMap_cons_none hx]
      rfl
    | some a =>
      rw [List.filterMap_cons_some hx]
      cases a <;> simp [Argument.walkAll]

/-- As a parameter a raw value makes the blocks that it makes as a block. -/
theorem walkAll_argument (draws : Draws) (v : Json) :
    Argument.walkAll ((Json.roles object draws v).argument? v).toList
      = blockWalk object draws v := by
  unfold blockWalk
  cases v with
  | obj fields =>
    rw [Roles.argument?]
    cases (Json.roles object draws (.obj fields)).block <;> simp [Argument.walkAll, Node.walkAll]
  | _ => simp [Roles.argument?, Json.roles, Argument.walkAll, Node.walkAll]

theorem walkAll_stack (draws : Draws) (items : List Json) :
    Node.walkAll (Json.roles object draws (.arr items)).stack
      = (draws.deal items).flatMap fun p => blockWalk object p.1 p.2 := by
  rw [Json.roles, itemRoles_eq]
  simp only [List.filterMap_map]
  exact walkAll_filterMap _ (draws.deal items)

theorem walkAll_arguments (draws : Draws) (items : List Json) :
    Argument.walkAll (Json.roles object draws (.arr items)).arguments
      = (draws.deal items).flatMap fun p => blockWalk object p.1 p.2 := by
  rw [Json.roles, itemRoles_eq]
  simp only [List.filterMap_map, argument_walkAll_filterMap, Function.comp_apply, walkAll_argument]

theorem walkBranches_branches (draws : Draws) (items : List Json) :
    Node.walkBranches (Json.roles object draws (.arr items)).branches
      = (draws.deal items).flatMap fun p => Node.walkAll (Json.roles object p.1 p.2).stack := by
  rw [Json.roles, itemRoles_eq]
  simp only [List.map_map]
  induction draws.deal items with
  | nil => rfl
  | cons p rest ih =>
    rw [List.flatMap_cons, ← ih]
    rfl

/-- Whatever a raw value is read as, the walk of what it makes passes its blocks in order. -/
structure InOrder (object : Json) (draws : Draws) (v : Json) : Prop where
  block : List.Forall₂ (IsNodeOf object) (v.blocksAs .block) (blockWalk object draws v)
  stack : List.Forall₂ (IsNodeOf object) (v.blocksAs .stack)
    (Node.walkAll (Json.roles object draws v).stack)
  arguments : List.Forall₂ (IsNodeOf object) (v.blocksAs .stack)
    (Argument.walkAll (Json.roles object draws v).arguments)
  branches : List.Forall₂ (IsNodeOf object) (v.blocksAs .branches)
    (Node.walkBranches (Json.roles object draws v).branches)

theorem inOrder_arr {draws : Draws} {items : List Json}
    (h : ∀ v ∈ items, ∀ d, InOrder object d v) : InOrder object draws (.arr items) := by
  constructor
  · simp [Json.blocksAs, blockWalk, Json.roles, Node.walkAll]
  · rw [Json.blocksAs, itemBlocksAs_eq, walkAll_stack]
    exact forall₂_flatMap fun v hv d => (h v hv d).block
  · rw [Json.blocksAs, itemBlocksAs_eq, walkAll_arguments]
    exact forall₂_flatMap fun v hv d => (h v hv d).block
  · rw [Json.blocksAs, itemBlocksAs_eq, walkBranches_branches]
    exact forall₂_flatMap fun v hv d => (h v hv d).stack

/-- A value that is neither a list nor an object makes nothing. -/
theorem inOrder_scalar {draws : Draws} {v : Json} (hroles : Json.roles object draws v = {})
    (hblocks : ∀ how, v.blocksAs how = []) : InOrder object draws v := by
  constructor <;> simp [hblocks, blockWalk, hroles, Node.walkAll, Argument.walkAll,
    Node.walkBranches]

theorem inOrder_field {fields : List (Text × Json)}
    (h : ∀ f ∈ fields, ∀ d, InOrder object d f.2) (key : Text) (draws : Draws) :
    InOrder object draws ((field? key fields).getD .null) := by
  cases hfield : field? key fields with
  | none => exact inOrder_scalar (by simp [Json.roles]) (fun how => by cases how <;> rfl)
  | some v => exact h _ (mem_of_field hfield) draws

theorem inOrder_obj {draws : Draws} {fields : List (Text × Json)}
    (h : ∀ f ∈ fields, ∀ d, InOrder object d f.2) : InOrder object draws (.obj fields) := by
  constructor
  case block =>
    unfold blockWalk
    rw [Json.blocksAs, Json.roles]
    cases htag : textField? "type" fields with
    | none => exact .nil
    | some tag =>
      change List.Forall₂ _ (.obj fields :: (fieldBlocksAs .stack "params" fields
        ++ fieldBlocksAs .branches "statements" fields))
        (Node.walk (nodeOf object draws tag fields) ++ [])
      have hwalk : Node.walk (nodeOf object draws tag fields) = nodeOf object draws tag fields ::
          (Argument.walkAll (nodeOf object draws tag fields).arguments
            ++ Node.walkBranches (nodeOf object draws tag fields).branches) := rfl
      obtain ⟨d, hd⟩ := arguments_nodeOf
      obtain ⟨d', hd'⟩ := branches_nodeOf
      rw [List.append_nil, hwalk, hd, hd', fieldBlocksAs_eq, fieldBlocksAs_eq]
      exact .cons (isNodeOf_of_tag draws htag)
        (List.rel_append (inOrder_field h "params" d).arguments
          (inOrder_field h "statements" d').branches)
  all_goals simp [Json.blocksAs, Json.roles, Node.walkAll, Argument.walkAll, Node.walkBranches]

mutual

theorem inOrder (object : Json) : (v : Json) → ∀ draws, InOrder object draws v
  | .arr items => fun _ => inOrder_arr (inOrder_items object items)
  | .obj fields => fun _ => inOrder_obj (inOrder_fields object fields)
  | .null | .bool _ | .int _ | .double _ | .str _ => fun _ =>
    inOrder_scalar (by simp [Json.roles]) (fun how => by cases how <;> rfl)

theorem inOrder_items (object : Json) : (items : List Json) → ∀ v ∈ items, ∀ d, InOrder object d v
  | [] => by simp
  | v :: rest => List.forall_mem_cons.mpr ⟨inOrder object v, inOrder_items object rest⟩

theorem inOrder_fields (object : Json) :
    (fields : List (Text × Json)) → ∀ f ∈ fields, ∀ d, InOrder object d f.2
  | [] => by simp
  | (_, v) :: rest => List.forall_mem_cons.mpr ⟨inOrder object v, inOrder_fields object rest⟩

end

theorem forall₂_walk {b : Json} {n : Node} (h : IsNodeOf object b n) :
    List.Forall₂ (IsNodeOf object) b.keptBlocks n.walk := by
  obtain ⟨draws, fields, tag, rfl, htag, rfl⟩ := isNodeOf_cases h
  have hblock := (inOrder object (.obj fields) draws).block
  rwa [blockWalk, roles_obj object draws htag, Option.toList_some, Node.walkAll, Node.walkAll,
    List.append_nil] at hblock

theorem forall₂_arguments {b : Json} {n : Node} (h : IsNodeOf object b n) :
    List.Forall₂ (IsArgumentOf object) ((b.get "params").items.filter Json.isParameter)
      n.arguments := by
  obtain ⟨draws, fields, tag, rfl, -, rfl⟩ := isNodeOf_cases h
  obtain ⟨d, hd⟩ := arguments_nodeOf
  rw [hd]
  exact arguments_forall₂ object d _

theorem forall₂_branches {b : Json} {n : Node} (h : IsNodeOf object b n) :
    List.Forall₂ (fun branch body =>
        List.Forall₂ (IsNodeOf object) (branch.items.filter Json.isBlock) body)
      (b.get "statements").items n.branches := by
  obtain ⟨draws, fields, tag, rfl, -, rfl⟩ := isNodeOf_cases h
  obtain ⟨d, hd⟩ := branches_nodeOf
  rw [hd]
  exact branches_forall₂ object d _

end Walks

/-! ## Conversion -/

/-- Nothing that counts is lost, doubled or moved on the way from a raw block to its node. -/
theorem conversion_keeps_what_counts (object : Json) (draws : Draws) (b : Json)
    (h : b.isBlock = true) :
    ∃ n, Node.ofJson object draws b = .ok n ∧
      List.Forall₂ (IsArgumentOf object) ((b.get "params").items.filter Json.isParameter)
        n.arguments ∧
      List.Forall₂ (fun branch body =>
          List.Forall₂ (IsNodeOf object) (branch.items.filter Json.isBlock) body)
        (b.get "statements").items n.branches ∧
      List.Forall₂ (IsNodeOf object) b.keptBlocks n.walk ∧
      n.walk.map Node.tag = b.keptBlocks.map (Json.get "type") ∧
      ∀ m ∈ n.walk, m.labels.object = object ∧
        ∀ v, .literal v ∈ m.arguments → v ≠ .null ∧ ∀ fields, v ≠ .obj fields := by
  obtain ⟨n, hmade, hn⟩ : ∃ n, Node.ofJson object draws b = .ok n ∧ IsNodeOf object b n := by
    cases b with
    | obj fields =>
      obtain ⟨tag, htag⟩ := Option.isSome_iff_exists.mp h
      exact ⟨_, ofJson_of_tag draws htag, isNodeOf_of_tag draws htag⟩
    | _ => cases h
  have hwalk := forall₂_walk hn
  refine ⟨n, hmade, forall₂_arguments hn, forall₂_branches hn, hwalk, ?_, ?_⟩
  · refine List.forall₂_eq_eq_eq.le _ _ ?_
    rw [List.forall₂_map_left_iff, List.forall₂_map_right_iff]
    exact hwalk.flip.imp fun m b' hm => tag_of_isNodeOf hm
  · intro m hm
    obtain ⟨b', -, hm⟩ := exists_of_mem_left hwalk.flip hm
    refine ⟨object_of_isNodeOf hm, fun v hv => ?_⟩
    obtain ⟨w, -, hw⟩ := exists_of_mem_left (forall₂_arguments hm).flip hv
    cases hw with
    | literal hnull hobj => exact ⟨hnull, hobj⟩

/-- A loop with a null, a block, an object without type and a list among its parameters, and with
a branch that is no list. -/
def mixedBlock : Json :=
  .obj [("type", .str "repeat_basic"),
    ("params", .arr [.null, .obj [("type", .str "number"), ("params", .arr [.str "3", .null])],
      .obj [("name", .str "times")], .arr [.null], .bool false]),
    ("statements", .arr [.int 4, .arr [.obj [("type", .str "move_x")], .null,
      .obj [("type", .int 7)], .obj [("type", .str "stop_repeat")]]])]

theorem mixed_block_keeps_what_counts :
    mixedBlock.isBlock = true ∧
    mixedBlock.keptBlocks.map (Json.get "type") =
      [.str "repeat_basic", .str "number", .str "move_x", .str "stop_repeat"] ∧
    ∃ n, Node.ofJson (.str "a") (.all 0) mixedBlock = .ok n ∧
      n.walk.map Node.tag =
        [.str "repeat_basic", .str "number", .str "move_x", .str "stop_repeat"] := by
  have hkept : mixedBlock.keptBlocks.map (Json.get "type") =
      [.str "repeat_basic", .str "number", .str "move_x", .str "stop_repeat"] := rfl
  obtain ⟨n, hn, -, -, -, htags, -⟩ :=
    conversion_keeps_what_counts (.str "a") (.all 0) mixedBlock rfl
  exact ⟨rfl, hkept, n, hn, htags.trans hkept⟩

end BlockScript
