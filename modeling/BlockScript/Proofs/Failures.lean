-- Where failures come from. A block fails with its own tag, or with the
-- failure of one of its arguments, so the tag that a failure names is that
-- of a block which stands somewhere among the arguments.
import BlockScript.Proofs.Obstacles

namespace BlockScript

/-! ## Computations that can fail -/

/-- A failure passes `P`. A fault is none. -/
def Obstacle.FailsAs (P : Failure → Prop) : Obstacle → Prop
  | .failure f => P f
  | .fault _ => True

/-- Every failure that the computation can end with passes `P`. Faults are no failures. -/
abbrev FailsOnly (P : Failure → Prop) {α : Type} (x : Except Obstacle α) : Prop :=
  ErrsOnly (Obstacle.FailsAs P) x

theorem FailsOnly.mono {P Q : Failure → Prop} {α : Type} {x : Except Obstacle α}
    (h : FailsOnly P x) (hPQ : ∀ f, P f → Q f) : FailsOnly Q x := by
  refine ErrsOnly.mono h fun o ho => ?_
  cases o with
  | failure f => exact hPQ f ho
  | fault f => trivial

/-! ## Nodes -/

mutual

/-- The node and the nodes that it takes its values from, at any depth. -/
def Node.operands : Node → List Node
  | .mk tag arguments branches labels =>
    .mk tag arguments branches labels :: Argument.operands arguments

def Argument.operands : List Argument → List Node
  | [] => []
  | .literal _ :: rest => Argument.operands rest
  | .block n :: rest => n.operands ++ Argument.operands rest

end

theorem Node.mem_operands_self (n : Node) : n ∈ n.operands := by
  cases n
  exact List.mem_cons_self

/-- The failure names one of the nodes by its tag. -/
def Failure.Names (f : Failure) (nodes : List Node) : Prop := ∃ m ∈ nodes, m.tag = f.tag

theorem Failure.Names.mono {f : Failure} {nodes more : List Node} (h : f.Names nodes)
    (hsub : ∀ m ∈ nodes, m ∈ more) : f.Names more := by
  obtain ⟨m, hm, htag⟩ := h
  exact ⟨m, hsub m hm, htag⟩

/-- The failure is the node's own: the node has no value for this reason, and the reason is that it
is not supported exactly if it is no node that has a value. -/
structure Failure.IsOwn (x : Extensions) (object : Json) (f : Failure) (m : Node) : Prop where
  tag : m.tag = f.tag
  fails : m.value x object = .error (.failure f)
  unsupported_iff : f.reason = .unsupported ↔ m.isValue x = .ok false

/-- The failure is the own one of a node among these. -/
def Failure.Blames (x : Extensions) (object : Json) (f : Failure) (nodes : List Node) : Prop :=
  ∃ m ∈ nodes, f.IsOwn x object m

theorem Failure.Blames.mono {x : Extensions} {object : Json} {f : Failure} {nodes more : List Node}
    (h : f.Blames x object nodes) (hsub : ∀ m ∈ nodes, m ∈ more) : f.Blames x object more := by
  obtain ⟨m, hm, hown⟩ := h
  exact ⟨m, hsub m hm, hown⟩

theorem Failure.Blames.names {x : Extensions} {object : Json} {f : Failure} {nodes : List Node}
    (h : f.Blames x object nodes) : f.Names nodes := by
  obtain ⟨m, hm, hown⟩ := h
  exact ⟨m, hm, hown.tag⟩

mutual

/-- A node that has no value fails as one of its operands does by itself. -/
theorem blames_value (x : Extensions) (object : Json) :
    (n : Node) → FailsOnly (·.Blames x object n.operands) (n.value x object)
  | .mk tag arguments branches labels => by
    let n : Node := .mk tag arguments branches labels
    let P (f : Failure) : Prop :=
      (f.tag = tag ∧ (f.reason = .unsupported ↔ n.isValue x = .ok false)) ∨
        f.Blames x object (Argument.operands arguments)
    have hnode : FailsOnly P (n.value x object) :=
      errsOnly_node (fun reason hreason => .inl ⟨rfl, hreason⟩) (fun _ _ => trivial) fun s hs =>
        (blames_slots x object arguments s hs).mono fun f hf => .inr hf
    intro o ho
    cases o with
    | fault f => trivial
    | failure f =>
      rcases hnode _ ho with ⟨htag, hreason⟩ | hinside
      · exact ⟨n, Node.mem_operands_self _, htag.symm, ho, hreason⟩
      · exact Failure.Blames.mono hinside fun m hm => List.mem_cons_of_mem _ hm

theorem blames_slots (x : Extensions) (object : Json) :
    (arguments : List Argument) → ∀ s ∈ Argument.slots x object arguments,
      FailsOnly (·.Blames x object (Argument.operands arguments)) s.made
  | [] => by simp [Argument.slots]
  | .literal v :: rest => by
    intro s hs
    rcases List.mem_cons.mp hs with rfl | hs
    · exact errsOnly_ok _
    · exact blames_slots x object rest s hs
  | .block n :: rest => by
    intro s hs
    rcases List.mem_cons.mp hs with rfl | hs
    · exact (blames_value x object n).mono fun f hf => hf.mono fun m hm =>
        List.mem_append_left _ hm
    · exact (blames_slots x object rest s hs).mono fun f hf => hf.mono fun m hm =>
        List.mem_append_right _ hm

end

/-- A node that has no value fails with the tag of a node among its operands. -/
theorem failsOnly_value (x : Extensions) (object : Json) (n : Node) :
    FailsOnly (·.Names n.operands) (n.value x object) :=
  (blames_value x object n).mono fun _ hf => hf.names

theorem failsOnly_slots (x : Extensions) (object : Json) (arguments : List Argument) :
    ∀ s ∈ Argument.slots x object arguments,
      FailsOnly (·.Names (Argument.operands arguments)) s.made :=
  fun s hs => (blames_slots x object arguments s hs).mono fun _ hf => hf.names

end BlockScript
