-- Whose failure it is. A value that cannot be written fails as one of the blocks in
-- it does by itself, and it is not supported only if that block is of no known kind
-- and names neither a parameter nor a function.
import BlockScript.Proofs.Failures
import BlockScript.Proofs.Rendering

namespace BlockScript

/-- A node with a tag that cannot be looked up is at fault, so it does not fail. -/
theorem Node.isKey_of_fails {x : Extensions} {object : Json} {n : Node} {f : Failure}
    (h : n.value x object = .error (.failure f)) : n.tag.isKey = true := by
  obtain ⟨tag, arguments, branches, labels⟩ := n
  cases tag with
  | arr | obj => cases h
  | _ => rfl

theorem Node.isValue_eq_false_iff {n : Node} (hkey : n.tag.isKey = true) :
    n.isValue {} = .ok false ↔
      n.tag.text?.bind ValueKind.ofTag? = none ∧ n.param? = none ∧ n.callee? = none := by
  have hline : n.tag.text?.bind (extension? · ({} : Extensions).values) = none := by
    cases n.tag.text? <;> rfl
  rw [Node.isValue_eq hkey, hline]
  simp [and_assoc]

/-- What an argument fails with is the own failure of a block in it. A plain value never fails. -/
theorem blames_written {object : Json} {place : Int} {a : Argument} {f : Failure}
    (h : a.written object place = .error (.failure f)) :
    f.Blames {} object (Argument.operands [a]) := by
  cases a with
  | literal v => cases h
  | block n =>
    have hvalue : n.value {} object = .error (.failure f) := by
      change (n.value {} object).map (Expr.render place) = .error (.failure f) at h
      cases hn : n.value {} object <;> rw [hn] at h <;> cases h
      rfl
    refine Failure.Blames.mono (blames_value {} object n _ hvalue) fun m hm => ?_
    exact List.mem_append_left _ hm

/-- An argument that has no text at a place fails as a block in it does, with the tag of that block.
The block is not supported exactly if no known kind has its tag and it names neither a parameter nor
a function, so nothing in an argument of nodes that have values is not supported. -/
theorem failures_name_the_block {object : Json} {place : Int} {a : Argument} {f : Failure}
    (h : a.written object place = .error (.failure f)) :
    (∃ m ∈ Argument.operands [a], m.tag = f.tag ∧ m.value {} object = .error (.failure f) ∧
      (f.reason = .unsupported ↔
        m.tag.text?.bind ValueKind.ofTag? = none ∧ m.param? = none ∧ m.callee? = none)) ∧
    ((∀ m ∈ Argument.operands [a], m.isValue {} = .ok true) → f.reason ≠ .unsupported) := by
  obtain ⟨m, hm, hown⟩ := blames_written h
  constructor
  · have hkey := Node.isKey_of_fails hown.fails
    exact ⟨m, hm, hown.tag, hown.fails, hown.unsupported_iff.trans (Node.isValue_eq_false_iff hkey)⟩
  · intro hall hreason
    have hnone := hown.unsupported_iff.mp hreason
    rw [hall m hm] at hnone
    cases hnone

/-- The length of an unknown block fails inside a sum as the unknown block does, and the length of
nothing fails by itself. -/
theorem unknown_operand_is_named :
    let unknown : Node := .mk (.str "mystery") [] [] {}
    let sum (operand : Argument) : Argument := .block (.mk (.str "calc_basic")
      [.literal (.int 1), .literal (.str "PLUS"),
        .block (.mk (.str "length_of_string") [operand] [] {})] [] {})
    let empty : Argument := .block (.mk (.str "length_of_string") [] [] {})
    (∃ m ∈ Argument.operands [sum (.block unknown)], m.tag = .str "mystery" ∧
      m.tag.text?.bind ValueKind.ofTag? = none ∧ m.param? = none ∧ m.callee? = none) ∧
    empty.written .null 0 =
      .error (.failure { tag := .str "length_of_string", reason := .missingArgument }) ∧
    (∀ m ∈ Argument.operands [empty], m.isValue {} = .ok true) ∧
    Reason.missingArgument ≠ .unsupported := by
  intro unknown sum empty
  have hsum : (sum (.block unknown)).written .null 0 =
      .error (.failure { tag := .str "mystery", reason := .unsupported }) := rfl
  have hempty : empty.written .null 0 =
      .error (.failure { tag := .str "length_of_string", reason := .missingArgument }) := rfl
  have hhandled : ∀ m ∈ Argument.operands [empty], m.isValue {} = .ok true :=
    List.forall_mem_singleton.mpr rfl
  obtain ⟨⟨m, hm, htag, -, hiff⟩, -⟩ := failures_name_the_block hsum
  exact ⟨⟨m, hm, htag, hiff.mp rfl⟩, hempty, hhandled, (failures_name_the_block hempty).2 hhandled⟩

end BlockScript
