-- Raw blocks in the tree of a script. Every block at any depth of a stack, as a
-- statement or as an argument, has its node in the tree.
import BlockScript.Proofs.Totality

namespace BlockScript

/-! ## Walks inside walks -/

mutual

/-- What stands inside a node of a tree stands in the tree. -/
theorem Node.walk_of_mem_walk {m : Node} : (n : Node) → m ∈ n.walk → m.walk ⊆ n.walk
  | .mk tag arguments branches labels => by
    intro h
    rw [Node.walk] at h
    rcases List.mem_cons.mp h with rfl | h
    · exact List.Subset.refl _
    · rcases List.mem_append.mp h with h | h
      · exact List.Subset.trans (Argument.walk_of_mem_walkAll arguments h)
          (Node.arguments_subset_walk (.mk tag arguments branches labels))
      · exact List.Subset.trans (Node.walk_of_mem_walkBranches branches h)
          (Node.branches_subset_walk (.mk tag arguments branches labels))

theorem Argument.walk_of_mem_walkAll {m : Node} :
    (arguments : List Argument) → m ∈ Argument.walkAll arguments →
      m.walk ⊆ Argument.walkAll arguments
  | [] => by
    intro h
    cases h
  | .literal v :: rest => fun h => Argument.walk_of_mem_walkAll rest h
  | .block n :: rest => by
    intro h
    rcases List.mem_append.mp h with h | h
    · exact List.subset_append_of_subset_left _ (Node.walk_of_mem_walk n h)
    · exact List.subset_append_of_subset_right _ (Argument.walk_of_mem_walkAll rest h)

theorem Node.walk_of_mem_walkAll {m : Node} :
    (body : List Node) → m ∈ Node.walkAll body → m.walk ⊆ Node.walkAll body
  | [] => by
    intro h
    cases h
  | n :: rest => by
    intro h
    rcases List.mem_append.mp h with h | h
    · exact List.subset_append_of_subset_left _ (Node.walk_of_mem_walk n h)
    · exact List.subset_append_of_subset_right _ (Node.walk_of_mem_walkAll rest h)

theorem Node.walk_of_mem_walkBranches {m : Node} :
    (branches : List (List Node)) → m ∈ Node.walkBranches branches →
      m.walk ⊆ Node.walkBranches branches
  | [] => by
    intro h
    cases h
  | body :: rest => by
    intro h
    rcases List.mem_append.mp h with h | h
    · exact List.subset_append_of_subset_left _ (Node.walk_of_mem_walkAll body h)
    · exact List.subset_append_of_subset_right _ (Node.walk_of_mem_walkBranches rest h)

end

/-! ## Nodes of raw blocks -/

theorem Draws.exists_mem_deal {α : Type} (draws : Draws) {l : List α} {a : α} (h : a ∈ l) :
    ∃ d, (d, a) ∈ draws.deal l := by
  rw [← draws.map_snd_deal l] at h
  obtain ⟨p, hp, rfl⟩ := List.mem_map.mp h
  exact ⟨p.1, hp⟩

theorem mem_stack_of_mem (object : Json) (draws : Draws) {items : List Json}
    {fields : List (Text × Json)} {tag : Text} (hmem : .obj fields ∈ items)
    (htag : textField? "type" fields = some tag) :
    ∃ d, nodeOf object d tag fields ∈ (Json.roles object draws (.arr items)).stack := by
  obtain ⟨d, hd⟩ := draws.exists_mem_deal hmem
  refine ⟨d, ?_⟩
  rw [Json.roles, itemRoles_eq]
  simp only [List.filterMap_map]
  exact List.mem_filterMap.mpr ⟨_, hd, roles_obj object d htag⟩

/-- As parameters the values of a list bring in all the blocks that they are as a stack. -/
theorem stack_subset_arguments (object : Json) (draws : Draws) (items : List Json) :
    Node.walkAll (Json.roles object draws (.arr items)).stack
      ⊆ Argument.walkAll (Json.roles object draws (.arr items)).arguments := by
  intro n hn
  rw [Node.walkAll_eq] at hn
  obtain ⟨m, hm, hn⟩ := List.mem_flatMap.mp hn
  refine Argument.walk_of_block ?_ hn
  rw [Json.roles, itemRoles_eq] at hm ⊢
  simp only [List.filterMap_map] at hm ⊢
  obtain ⟨⟨d, v⟩, hp, hblock⟩ := List.mem_filterMap.mp hm
  refine List.mem_filterMap.mpr ⟨(d, v), hp, ?_⟩
  simp only [Function.comp_apply] at hblock ⊢
  cases v with
  | obj fields => rw [Roles.argument?, hblock, Option.map_some]
  | _ => simp [Json.roles] at hblock

theorem mem_branches_of_mem (object : Json) (draws : Draws) {branches body : List Json}
    (h : .arr body ∈ branches) :
    ∃ d, (Json.roles object d (.arr body)).stack
      ∈ (Json.roles object draws (.arr branches)).branches := by
  have hbranches : (Json.roles object draws (.arr branches)).branches
      = (draws.deal branches).map fun p => (Json.roles object p.1 p.2).stack := by
    rw [Json.roles, itemRoles_eq]
    simp only [List.map_map]
    rfl
  obtain ⟨d, hd⟩ := draws.exists_mem_deal h
  rw [hbranches]
  exact ⟨d, List.mem_map.mpr ⟨_, hd, rfl⟩⟩

theorem tag_of_holdsBlock {items : List Json} {fields : List (Text × Json)}
    (h : HoldsBlock items fields) : ∃ tag, textField? "type" fields = some tag := by
  induction h with
  | member _ htype => exact Option.isSome_iff_exists.mp htype
  | parameter _ _ _ _ ih => exact ih
  | branch _ _ _ _ _ ih => exact ih

/-- Every raw block of a stack, at any depth, has its node in the tree. -/
theorem mem_walk_of_holdsBlock (object : Json) (draws : Draws) {items : List Json}
    {fields : List (Text × Json)} (h : HoldsBlock items fields) {tag : Text}
    (htag : textField? "type" fields = some tag) :
    ∃ d, nodeOf object d tag fields
      ∈ Node.walkAll (Json.roles object draws (.arr items)).stack := by
  -- by where the block stands: the node of the block around it is in the tree, and so is what is
  -- inside that node
  induction h generalizing tag draws with
  | member hmem _ =>
    obtain ⟨d, hd⟩ := mem_stack_of_mem object draws hmem htag
    exact ⟨d, Node.walk_subset_walkAll hd (Node.mem_walk_self _)⟩
  | @parameter items params outer fields houter hparams _ ihouter ihinner =>
    obtain ⟨t, ht⟩ := tag_of_holdsBlock houter
    obtain ⟨around, houter⟩ := ihouter draws ht
    obtain ⟨within, hrole⟩ := roleOf_fieldRoles object around "params" outer
    obtain ⟨d, hinner⟩ := ihinner within htag
    have harguments : (nodeOf object around t outer).arguments
        = (Json.roles object within (.arr params)).arguments := by
      change (roleOf "params" (Json.fieldRoles object around outer)).arguments = _
      rw [hrole, hparams]
      rfl
    refine ⟨d, Node.walk_of_mem_walkAll _ houter (Node.arguments_subset_walk _ ?_)⟩
    rw [harguments]
    exact stack_subset_arguments object within params hinner
  | @branch items branches body outer fields houter hstatements hbody _ ihouter ihinner =>
    obtain ⟨t, ht⟩ := tag_of_holdsBlock houter
    obtain ⟨around, houter⟩ := ihouter draws ht
    obtain ⟨within, hrole⟩ := roleOf_fieldRoles object around "statements" outer
    obtain ⟨below, hstack⟩ := mem_branches_of_mem object within hbody
    obtain ⟨d, hinner⟩ := ihinner below htag
    have hbranches : (nodeOf object around t outer).branches
        = (Json.roles object within (.arr branches)).branches := by
      change (roleOf "statements" (Json.fieldRoles object around outer)).branches = _
      rw [hrole, hstatements]
      rfl
    refine ⟨d, Node.walk_of_mem_walkAll _ houter (Node.branches_subset_walk _ ?_)⟩
    rw [hbranches]
    exact Node.walkAll_subset_walkBranches hstack hinner

theorem mem_scriptNodes_of_holdsBlock (object : Json) (draws : Draws) {script : Json}
    {threads items : List Json} {fields : List (Text × Json)}
    (hscript : readScript script = some threads) (hitems : .arr items ∈ threads)
    (h : HoldsBlock items fields) {tag : Text} (htag : textField? "type" fields = some tag) :
    ∃ d, nodeOf object d tag fields ∈ scriptNodes object draws script := by
  obtain ⟨below, hbelow⟩ := draws.exists_mem_deal hitems
  obtain ⟨d, hnode⟩ := mem_walk_of_holdsBlock object below h htag
  unfold scriptNodes
  rw [hscript]
  exact ⟨d, List.mem_flatMap.mpr ⟨_, hbelow, hnode⟩⟩

end BlockScript
