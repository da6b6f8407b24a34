-- The words of generated code. Whatever the ids and values in the blocks are, the
-- names in an expression or a statement are words of the runtime or made from ids,
-- and a statement starts with one of few words.
import BlockScript.Proofs.ActionForms

namespace BlockScript

/-! ## Words -/

/-- All words of generated code pass `N`: those of the runtime, and the names of parameters, local
variables and functions, whatever their ids are. -/
structure Vocabulary (N : Text → Prop) : Prop where
  word : ∀ w ∈ runtimeWords, N (Text.ofString w)
  paramName : ∀ id drawn name, Name.ofParam id drawn = .ok name → N name
  localName : ∀ id name, Name.ofLocal id = .ok name → N name
  functionName : ∀ id drawn name, Name.ofFunction id drawn = .ok name → N name

/-! ## Expressions -/

namespace Expr

mutual

/-- An expression with proper numerals whose names and fields pass `N`. -/
@[simp]
def Over (N : Text → Prop) : Expr → Prop
  | .numeral n => n.magnitude.Proper
  | .name t => N t
  | .member e field => Over N e ∧ N field
  | .call callee arguments => Over N callee ∧ AllOver N arguments
  | .not e | .await e => Over N e
  | .binary _ left right => Over N left ∧ Over N right
  | .verbatim _ => False
  | .plain _ | .data _ | .zero | .text _ => True

@[simp]
def AllOver (N : Text → Prop) : List Expr → Prop
  | [] => True
  | e :: rest => Over N e ∧ AllOver N rest

end

variable {N : Text → Prop}

@[simp] theorem over_quoted (v : Json) : (quoted v).Over N := by
  unfold quoted
  split <;> trivial

@[simp] theorem over_ofLiteral (v : Json) : (ofLiteral v).Over N := by
  unfold ofLiteral
  split
  · split
    · rename_i hn
      exact read_proper hn
    · trivial
  · trivial

@[simp] theorem over_method (e : Expr) (field : Text) (arguments : List Expr) :
    (e.method field arguments).Over N ↔ (e.Over N ∧ N field) ∧ AllOver N arguments :=
  Iff.rfl

end Expr

/-! ## Values -/

section Values

variable {N : Text → Prop}

theorem Expr.allOver_iff {es : List Expr} : AllOver N es ↔ ∀ e ∈ es, e.Over N := by
  induction es with
  | nil => simp
  | cons e rest ih => simp [ih]

theorem closed_over (hN : Vocabulary N) : Expr.Closed (Expr.Over N) where
  literal := Expr.over_ofLiteral
  quoted := Expr.over_quoted
  text _ := trivial
  zero := trivial
  one := toDigits_proper 1
  word hw := hN.word _ (List.mem_append_left _ hw)
  member he _ hw := ⟨he, hN.word _ hw⟩
  call he _ harguments := ⟨he, Expr.allOver_iff.mpr harguments⟩
  not he := he
  binary hleft hright := ⟨hleft, hright⟩

theorem named_over (hN : Vocabulary N) (nodes : List Node) :
    NamedPass (Expr.Over N) nodes where
  paramName _ _ id _ name hname := hN.paramName (.str id) _ name hname
  localName _ _ id _ name hname := hN.localName id name hname
  called _ _ id _ name hname arguments harguments := by
    have hentry := (closed_over hN).entry
    have hself := (closed_over hN).self
    simp [Expr.allOver_iff.mpr harguments, hentry, hself, hN.word "func" (by decide),
      hN.functionName (.str id) _ name hname]

/-- The value of a block is made of the words of generated code. -/
theorem over_value (hN : Vocabulary N) (object : Json) (n : Node) :
    GivesOnly (Expr.Over N) (n.value {} object) :=
  closed_value (closed_over hN) (fun _ _ h => by cases h) object n (named_over hN _)

end Values

/-! ## Statements -/

namespace Stmt

mutual

/-- A statement over `N` that starts as an order does, with comments that pass `C`. -/
@[simp]
def Over (N C : Text → Prop) : Stmt → Prop
  | .comment t => C t
  | .verbatim _ => False
  | .jump _ => True
  | .run e => e.Over N ∧ e.isOrder = true
  | .set target e | .raise target e => (target.Over N ∧ target.isOrder = true) ∧ e.Over N
  | .choose condition body other => condition.Over N ∧ AllOver N C body ∧ ElseOver N C other
  | .count _ bound body => bound.Over N ∧ AllOver N C body
  | .loop condition body => condition.Over N ∧ AllOver N C body

@[simp]
def AllOver (N C : Text → Prop) : List Stmt → Prop
  | [] => True
  | s :: rest => Over N C s ∧ AllOver N C rest

@[simp]
def ElseOver (N C : Text → Prop) : Option (List Stmt) → Prop
  | none => True
  | some body => AllOver N C body

end

theorem allOver_iff {N C : Text → Prop} {body : List Stmt} :
    AllOver N C body ↔ ∀ st ∈ body, st.Over N C := by
  induction body with
  | nil => simp
  | cons s rest ih => simp [ih]

theorem closed_over {N : Text → Prop} (hN : Vocabulary N) (C : Text → Prop) (lowest : Int) :
    Closed lowest (Expr.Over N) (Over N C) where
  run he horder := ⟨he, horder⟩
  set htarget horder _ he := ⟨⟨htarget, horder⟩, he⟩
  raise htarget horder _ he := ⟨⟨htarget, horder⟩, he⟩
  back := trivial
  yield := by simp [yieldNow, (BlockScript.closed_over hN).entry, hN.word "yield" (by decide)]
  leave := trivial
  next := trivial
  choose {condition body other} hcondition hbody hother := by
    refine ⟨hcondition, allOver_iff.mpr hbody, ?_⟩
    cases other with
    | none => trivial
    | some body => exact allOver_iff.mpr (hother body rfl)
  count _ hbound hbody := ⟨hbound, allOver_iff.mpr hbody⟩
  loop hcondition hbody := ⟨hcondition, allOver_iff.mpr hbody⟩

end Stmt

/-! ## Bodies -/

/-- The comments that can stand in the place of the nodes pass `C`. -/
def CommentsPass (C : Text → Prop) (nodes : List Node) : Prop :=
  ∀ n ∈ nodes, ∀ t, (unsupported n.tag = .comment t ∨
    ∃ f : Failure, f.Names nodes ∧ skipped n.tag f = .comment t) → C t

theorem CommentsPass.within {C : Text → Prop} {nodes more : List Node} (h : CommentsPass C more)
    (hsub : nodes ⊆ more) : CommentsPass C nodes := by
  rintro n hn t (ht | ⟨f, hf, ht⟩)
  · exact h n (hsub hn) t (.inl ht)
  · exact h n (hsub hn) t (.inr ⟨f, hf.mono fun m hm => hsub hm, ht⟩)

theorem pass_over {N C : Text → Prop} (hN : Vocabulary N) {nodes : List Node}
    (h : CommentsPass C nodes) : NodesPass (Expr.Over N) (Stmt.Over N C) nodes where
  toNamedPass := named_over hN nodes
  waits _ _ _ _ he := he
  unsupported n hn := h n hn _ (.inl rfl)
  skipped n hn f hf := h n hn _ (.inr ⟨f, hf, rfl⟩)

/-- The statements of a body are made of the words of generated code. -/
theorem over_actionsAll {N C : Text → Prop} (hN : Vocabulary N) {body : List Node}
    (h : CommentsPass C (Node.walkAll body)) (s : Scope) :
    GivesOnly (Stmt.AllOver N C) (Node.actionsAll {} body s) := by
  have hforms := FormsPass.known (closed_over hN) (Stmt.closed_over hN C s.level)
  intro made hmade
  exact Stmt.allOver_iff.mpr
    (closed_actionsAll hforms body (pass_over hN h) s (Int.le_refl _) made hmade)

end BlockScript
