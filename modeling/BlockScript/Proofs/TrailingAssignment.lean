-- The assignment that a body ends with. The search goes through the body and its
-- branches from right to left and misses nothing on the way: it comes back with
-- the first assignment that stands there, and with none only if there is none.
import BlockScript.Proofs.Returning

namespace BlockScript

namespace Node

/-! ## From right to left -/

theorem backwardsInBody_eq (body : List Node) :
    backwardsInBody body = body.reverse.flatMap backwards := by
  induction body with
  | nil => rfl
  | cons n rest ih => simp [backwardsInBody, ih]

theorem backwardsInBranches_eq (branches : List (List Node)) :
    backwardsInBranches branches = branches.reverse.flatMap backwardsInBody := by
  induction branches with
  | nil => rfl
  | cons branch rest ih => simp [backwardsInBranches, ih]

/-- A node stands before its branches, the last branch before the others, and in a branch the last
block before the others. -/
theorem backwards_eq (n : Node) :
    n.backwards =
      n :: n.branches.reverse.flatMap fun branch => branch.reverse.flatMap backwards := by
  obtain ⟨tag, arguments, branches, labels⟩ := n
  rw [backwards, backwardsInBranches_eq, funext backwardsInBody_eq]
  rfl

/-! ## Reaching blocks -/

/-- The node stands in the body or in a branch below it. Arguments are not entered. -/
inductive Below : List Node → Node → Prop
  | here {body : List Node} {n : Node} : n ∈ body → Below body n
  | inBranch {body branch : List Node} {m n : Node} :
      m ∈ body → branch ∈ m.branches → Below branch n → Below body n

theorem Below.of_subset {body more : List Node} {n : Node} (h : Below body n) (hsub : body ⊆ more) :
    Below more n := by
  cases h with
  | here hn => exact .here (hsub hn)
  | inBranch hm hbranch h => exact .inBranch (hsub hm) hbranch h

theorem mem_backwardsInBody {body : List Node} {n : Node} (h : Below body n) :
    n ∈ backwardsInBody body := by
  induction h with
  | @here body n hn =>
    rw [backwardsInBody_eq, List.mem_flatMap]
    exact ⟨n, List.mem_reverse.mpr hn, by rw [backwards_eq]; exact List.mem_cons_self⟩
  | @inBranch body branch m n hm hbranch _ ih =>
    rw [backwardsInBody_eq] at ih ⊢
    refine List.mem_flatMap.mpr ⟨m, List.mem_reverse.mpr hm, ?_⟩
    rw [backwards_eq]
    refine List.mem_cons_of_mem _ (List.mem_flatMap.mpr ⟨branch, ?_, ih⟩)
    exact List.mem_reverse.mpr hbranch

mutual

theorem below_of_mem_backwards {n : Node} : (m : Node) → n ∈ m.backwards → Below [m] n
  | .mk tag arguments branches labels => by
    intro h
    rcases List.mem_cons.mp h with rfl | h
    · exact .here List.mem_cons_self
    · obtain ⟨branch, hbranch, h⟩ := below_of_mem_branches branches h
      exact .inBranch List.mem_cons_self hbranch h

theorem below_of_mem_body {n : Node} : (body : List Node) → n ∈ backwardsInBody body → Below body n
  | [] => by
    intro h
    cases h
  | m :: rest => by
    intro h
    rcases List.mem_append.mp h with h | h
    · exact (below_of_mem_body rest h).of_subset (List.subset_cons_self m rest)
    · exact (below_of_mem_backwards m h).of_subset (by simp)

theorem below_of_mem_branches {n : Node} : (branches : List (List Node)) →
    n ∈ backwardsInBranches branches → ∃ branch ∈ branches, Below branch n
  | [] => by
    intro h
    cases h
  | branch :: rest => by
    intro h
    rcases List.mem_append.mp h with h | h
    · obtain ⟨other, hother, h⟩ := below_of_mem_branches rest h
      exact ⟨other, List.mem_cons_of_mem branch hother, h⟩
    · exact ⟨branch, List.mem_cons_self, below_of_mem_body branch h⟩

end

theorem mem_backwardsInBody_iff {body : List Node} {n : Node} :
    n ∈ backwardsInBody body ↔ Below body n := ⟨below_of_mem_body body, mem_backwardsInBody⟩

/-! ## Assignments -/

/-- The tags of the blocks that assign to a variable. -/
def assignmentTags : List String := ["set_func_variable", "set_variable", "change_variable"]

def isAssignment (n : Node) : Bool :=
  assignmentTags.any fun tag => n.tag.text? = some (Text.ofString tag)

theorem isAssignment_iff {n : Node} :
    n.isAssignment = true ↔ ∃ tag ∈ assignmentTags, n.tag = .str tag := by
  simp only [isAssignment, List.any_eq_true, decide_eq_true_eq]
  refine exists_congr fun tag => and_congr_right fun _ => ⟨Json.eq_str_of_text, fun h => ?_⟩
  rw [h]
  rfl

theorem assigns_eq (n : Node) : n.assigns = n.isAssignment := by
  rw [Bool.eq_iff_iff, isAssignment_iff]
  constructor
  · intro h
    rcases action_of_assigns h with h | h | h
    all_goals exact ⟨_, by decide, tag_of_action h⟩
  · rintro ⟨tag, htag, h⟩
    have hkind : ∀ tag ∈ assignmentTags,
        ((ActionKind.ofTag? tag).map ActionKind.assigns).getD false = true := by decide +kernel
    rw [assigns, action?, h]
    exact hkind tag htag

end Node

/-- Where every tag can be looked up, the search comes to an end. -/
theorem lastAssignment_answers {body : List Node}
    (h : ∀ n, Node.Below body n → n.tag.isKey = true) :
    ∃ found, lastAssignment? body = .ok found := by
  unfold lastAssignment?
  split
  · exact ⟨none, rfl⟩
  · rename_i n hlast
    rw [Node.lastInBody_eq_find] at hlast
    have hkey := h n (Node.below_of_mem_body body (List.mem_of_find?_eq_some hlast))
    exact ⟨some n, by rw [Json.demandKey, if_pos hkey]; rfl⟩

/-- The search for the assignment that a body ends with comes back with the first one from the
right, and with none only if no block below is an assignment. It fails at most on a tag that cannot
be looked up. -/
theorem trailing_search_is_complete (body : List Node) :
    (∀ n : Node, n.backwards =
      n :: n.branches.reverse.flatMap fun branch => branch.reverse.flatMap Node.backwards) ∧
    ((∀ n, Node.Below body n → n.tag.isKey = true) → ∃ found, lastAssignment? body = .ok found) ∧
    ∀ found, lastAssignment? body = .ok found →
      found = (body.reverse.flatMap Node.backwards).find? Node.isAssignment ∧
      (found = none ↔ ∀ n, Node.Below body n → ∀ tag ∈ Node.assignmentTags, n.tag ≠ .str tag) := by
  refine ⟨Node.backwards_eq, lastAssignment_answers, fun found h => ?_⟩
  have hfound := found_of_lastAssignment h
  rw [funext Node.assigns_eq] at hfound
  refine ⟨by rw [hfound, Node.backwardsInBody_eq], ?_⟩
  rw [hfound, List.find?_eq_none]
  refine forall_congr' fun n => ?_
  rw [Node.mem_backwardsInBody_iff, Node.isAssignment_iff]
  simp only [not_exists, not_and, ne_eq]

/-- An assignment in a branch is found past the block that comes last, whose argument is not
entered, and past the last branch, which is empty. -/
theorem assignment_in_a_branch_is_found :
    let nested : Node :=
      .mk (.str "set_func_variable") [.literal (.str "b"), .literal (.int 2)] [] {}
    let other : Node := .mk (.str "set_variable") [.literal (.str "a"), .literal (.int 1)] [] {}
    let body : List Node :=
      [other, .mk (.str "if_else") [] [[nested, .mk (.str "show") [] [] {}], []] {},
        .mk (.str "hide") [.block other] [] {}]
    (∀ n, Node.Below body n → n.tag.isKey = true) ∧ lastAssignment? body = .ok (some nested) ∧
      (body.reverse.flatMap Node.backwards).find? Node.isAssignment = some nested := by
  intro nested other body
  have hkeys : ∀ n, Node.Below body n → n.tag.isKey = true := by
    intro n hn
    have hall : ∀ n ∈ Node.backwardsInBody body, n.tag.isKey = true := by decide
    exact hall n (Node.mem_backwardsInBody hn)
  obtain ⟨-, hanswers, hfirst⟩ := trailing_search_is_complete body
  obtain ⟨found, hfound⟩ := hanswers hkeys
  have hnested : (body.reverse.flatMap Node.backwards).find? Node.isAssignment = some nested := rfl
  have heq : found = some nested := (hfirst found hfound).1.trans hnested
  exact ⟨hkeys, heq ▸ hfound, hnested⟩

end BlockScript
