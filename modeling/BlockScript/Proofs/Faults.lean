-- Where faults come from. Work on a block stops only at a list or object that
-- stands where a table is looked up, or at an id that has no UTF-8 form, and in
-- each case the block with that literal or that id stands in the tree.
import BlockScript.Proofs.Failures

namespace BlockScript

/-! ## Faults among obstacles -/

/-- A fault passes `P`. A failure is none. -/
def Obstacle.AllowedBy (P : Fault → Prop) : Obstacle → Prop
  | .failure _ => True
  | .fault f => P f

section Obstacles

variable {P : Fault → Prop} {α : Type}

theorem ErrsOnly.allow {Q : Fault → Prop} {x : Except Obstacle α}
    (h : ErrsOnly (Obstacle.AllowedBy P) x) (hPQ : ∀ f, P f → Q f) :
    ErrsOnly (Obstacle.AllowedBy Q) x := by
  refine h.mono fun o ho => ?_
  cases o with
  | failure f => trivial
  | fault f => exact hPQ f ho

/-- A failure leaves a comment, so only faults are left. -/
theorem errsOnly_orSkipped {tag : Json} {x : Except Obstacle (List Stmt)}
    (h : ErrsOnly (Obstacle.AllowedBy P) x) : ErrsOnly P (orSkipped tag x) := by
  intro f hf
  cases x with
  | ok statements => cases hf
  | error o =>
    cases o with
    | failure g => cases hf
    | fault g =>
      cases hf
      exact h _ rfl

end Obstacles

/-! ## Causes -/

/-- One of the nodes is the cause. -/
def CausedIn (nodes : List Node) (f : Fault) : Prop := ∃ n ∈ nodes, n.Causes f

section Within

variable {α : Type} {nodes more : List Node} (hsub : nodes ⊆ more)

include hsub

theorem CausedIn.mono {f : Fault} (hf : CausedIn nodes f) : CausedIn more f := by
  obtain ⟨n, hn, hcause⟩ := hf
  exact ⟨n, hsub hn, hcause⟩

theorem errsOnly_within {x : Except Fault α} (h : ErrsOnly (CausedIn nodes) x) :
    ErrsOnly (CausedIn more) x :=
  h.mono fun _ hf => hf.mono hsub

theorem allowed_within {x : Except Obstacle α}
    (h : ErrsOnly (Obstacle.AllowedBy (CausedIn nodes)) x) :
    ErrsOnly (Obstacle.AllowedBy (CausedIn more)) x :=
  h.allow fun _ hf => hf.mono hsub

theorem Body.stopsOnly_within {b : Body} (h : b.StopsOnly (CausedIn nodes)) :
    b.StopsOnly (CausedIn more) :=
  ⟨fun s => errsOnly_within hsub (h.make s), errsOnly_within hsub h.suspends⟩

end Within

/-! ## Trees -/

theorem Node.mem_walk_self (n : Node) : n ∈ n.walk := by
  cases n
  exact List.mem_cons_self

theorem Node.arguments_subset_walk (n : Node) : Argument.walkAll n.arguments ⊆ n.walk := by
  cases n
  exact fun _ hm => List.mem_cons_of_mem _ (List.mem_append_left _ hm)

theorem Node.branches_subset_walk (n : Node) : Node.walkBranches n.branches ⊆ n.walk := by
  cases n
  exact fun _ hm => List.mem_cons_of_mem _ (List.mem_append_right _ hm)

theorem Node.walkAll_eq (body : List Node) : Node.walkAll body = body.flatMap Node.walk := by
  induction body with
  | nil => rfl
  | cons n rest ih => rw [Node.walkAll, ih, List.flatMap_cons]

theorem Node.walk_subset_walkAll {n : Node} {body : List Node} (h : n ∈ body) :
    n.walk ⊆ Node.walkAll body := by
  rw [walkAll_eq]
  exact fun m hm => List.mem_flatMap.mpr ⟨n, h, hm⟩

theorem Node.walkAll_mono {body more : List Node} (h : body ⊆ more) :
    Node.walkAll body ⊆ Node.walkAll more := by
  intro m hm
  rw [walkAll_eq] at hm
  obtain ⟨n, hn, hm⟩ := List.mem_flatMap.mp hm
  exact walk_subset_walkAll (h hn) hm

theorem Node.walkAll_subset_walkBranches {body : List Node} {branches : List (List Node)}
    (h : body ∈ branches) : Node.walkAll body ⊆ Node.walkBranches branches := by
  induction branches with
  | nil => cases h
  | cons branch rest ih =>
    rcases List.mem_cons.mp h with rfl | h
    · exact List.subset_append_left _ _
    · exact List.subset_append_of_subset_right _ (ih h)

theorem Node.branch_subset_walk (n : Node) (i : Int) : Node.walkAll (n.branch i) ⊆ n.walk := by
  unfold Node.branch
  cases h : Node.item? n.branches i with
  | none => exact List.nil_subset _
  | some body =>
    have hmem : body ∈ n.branches := by
      cases i with
      | ofNat i => exact List.mem_of_getElem? h
      | negSucc i => cases h
    exact List.Subset.trans (walkAll_subset_walkBranches hmem) n.branches_subset_walk

/-! ## Nodes -/

mutual

/-- The value of a node stops at a node of the tree. -/
theorem errsOnly_value (x : Extensions) (object : Json) :
    (n : Node) → ErrsOnly (Obstacle.AllowedBy (CausedIn n.walk)) (n.value x object)
  | .mk tag arguments branches labels => by
    let n : Node := .mk tag arguments branches labels
    refine errsOnly_node (n := n) (fun _ _ => trivial) ?_ fun s hs => ?_
    · exact fun f hf => ⟨n, n.mem_walk_self, hf⟩
    · exact allowed_within n.arguments_subset_walk (errsOnly_slots x object arguments s hs)

theorem errsOnly_slots (x : Extensions) (object : Json) :
    (arguments : List Argument) → ∀ s ∈ Argument.slots x object arguments,
      ErrsOnly (Obstacle.AllowedBy (CausedIn (Argument.walkAll arguments))) s.made
  | [] => by simp [Argument.slots]
  | .literal v :: rest => by
    intro s hs
    rcases List.mem_cons.mp hs with rfl | hs
    · exact errsOnly_ok _
    · exact errsOnly_slots x object rest s hs
  | .block n :: rest => by
    intro s hs
    rcases List.mem_cons.mp hs with rfl | hs
    · exact allowed_within (List.subset_append_left _ _) (errsOnly_value x object n)
    · exact allowed_within (List.subset_append_right _ _) (errsOnly_slots x object rest s hs)

end

theorem errsOnly_suspends (body : List Node) :
    ErrsOnly (CausedIn (Node.walkAll body)) (suspends body) := by
  unfold suspends
  split
  · exact errsOnly_ok _
  · rename_i n hfind
    refine errsOnly_bind (errsOnly_demandKey fun hkey => ?_) fun _ => errsOnly_ok _
    exact ⟨n, List.mem_of_find?_eq_some hfind, .tag hkey⟩

mutual

/-- The statements of a node stop at a node of the tree. -/
theorem errsOnly_actions (x : Extensions) :
    (n : Node) → (s : Scope) → ErrsOnly (CausedIn n.walk) (n.actions x s)
  | .mk tag arguments branches labels, s => by
    let n : Node := .mk tag arguments branches labels
    have hself : ∀ f, n.Causes f → CausedIn n.walk f := fun f hf => ⟨n, n.mem_walk_self, hf⟩
    show ErrsOnly (CausedIn n.walk) (n.actions x s)
    cases hkey : n.tag.isKey with
    | false =>
      rw [Node.actions_of_not_key hkey]
      exact errsOnly_error (hself _ (.tag hkey))
    | true =>
      rw [Node.actions_eq hkey]
      cases hmade : n.attempt? x s with
      | none => exact errsOnly_ok _
      | some made =>
        refine errsOnly_orSkipped (errsOnly_attempt (fun _ => trivial) hself ?_ ?_ hmade)
        · exact fun t ht =>
            allowed_within n.arguments_subset_walk (errsOnly_slots x s.object _ t ht)
        · exact fun b hb => Body.stopsOnly_within n.branches_subset_walk (stopsOnly_bodies x _ b hb)

theorem errsOnly_actionsAll (x : Extensions) :
    (body : List Node) → (s : Scope) → ErrsOnly (CausedIn (Node.walkAll body))
      (Node.actionsAll x body s)
  | [], _ => errsOnly_ok _
  | n :: rest, s => by
    rw [Node.actionsAll]
    refine errsOnly_bind ?_ fun _ => errsOnly_bind ?_ fun _ => errsOnly_ok _
    · exact errsOnly_within (List.subset_append_left _ _) (errsOnly_actions x n s)
    · exact errsOnly_within (List.subset_append_right _ _) (errsOnly_actionsAll x rest s)

theorem stopsOnly_bodies (x : Extensions) :
    (branches : List (List Node)) → ∀ b ∈ Node.bodies x branches,
      b.StopsOnly (CausedIn (Node.walkBranches branches))
  | [] => by simp [Node.bodies]
  | branch :: rest => by
    intro b hb
    rcases List.mem_cons.mp hb with rfl | hb
    · exact Body.stopsOnly_within (List.subset_append_left _ _)
        ⟨errsOnly_actionsAll x branch, errsOnly_suspends branch⟩
    · exact Body.stopsOnly_within (List.subset_append_right _ _) (stopsOnly_bodies x rest b hb)

end

end BlockScript
