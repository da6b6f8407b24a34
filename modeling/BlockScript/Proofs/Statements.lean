-- Blocks become well-formed statements. Where no tag and no id that a body shows
-- breaks its line, every statement made from the body is well formed, whatever
-- the values in its blocks are.
import BlockScript.Proofs.ActionForms
import BlockScript.Proofs.Layout

namespace BlockScript

/-! ## Forms -/

theorem Expr.allWellFormed_iff {es : List Expr} : AllWellFormed es ↔ ∀ e ∈ es, e.WellFormed := by
  induction es with
  | nil => simp [AllWellFormed]
  | cons e rest ih => simp [AllWellFormed, ih]

theorem isWord_of_runtimeWords : ∀ w ∈ runtimeWords, IsWord (Text.ofString w) := by decide +kernel

theorem closed_wellFormed : Expr.Closed Expr.WellFormed where
  literal := Expr.wellFormed_ofLiteral
  quoted := Expr.wellFormed_quoted
  text _ := trivial
  zero := trivial
  one := Expr.wellFormed_one
  word hw := by
    have hfree : ∀ w ∈ rootWords, isReserved (Text.ofString w) = false := by decide
    exact ⟨isWord_of_runtimeWords _ (List.mem_append_left _ hw), hfree _ hw⟩
  member he hcallee hw := ⟨hcallee, he, isWord_of_runtimeWords _ hw⟩
  call he hcallee harguments := ⟨hcallee, he, Expr.allWellFormed_iff.mpr harguments⟩
  not he := he
  binary hleft hright := ⟨hleft, hright⟩

theorem Expr.isRunnable_of_isOrder {e : Expr} (h : e.isOrder = true) : e.isRunnable = true := by
  cases e <;> first | rfl | cases h

namespace Stmt

variable {ends : LineEnds}

theorem allWellFormed_iff {body : List Stmt} :
    AllWellFormed ends body ↔ ∀ st ∈ body, st.WellFormed ends := by
  induction body with
  | nil => simp [AllWellFormed]
  | cons s rest ih => simp [AllWellFormed, ih]

theorem closed_wellFormed (ends : LineEnds) (lowest : Int) :
    Closed lowest Expr.WellFormed (WellFormed ends) where
  run he horder := ⟨he, Expr.isRunnable_of_isOrder horder⟩
  set htarget _ hcallee he := ⟨htarget, hcallee, he⟩
  raise htarget _ hcallee he := ⟨htarget, hcallee, he⟩
  back := trivial
  yield := by
    have hcall : (Expr.entry.method "yield" []).WellFormed :=
      BlockScript.closed_wellFormed.method BlockScript.closed_wellFormed.entry rfl
        (w := "yield") (by decide) (by simp)
    exact ⟨hcall, rfl⟩
  leave := trivial
  next := trivial
  choose {condition body other} hcondition hbody hother := by
    refine ⟨hcondition, allWellFormed_iff.mpr hbody, ?_⟩
    cases other with
    | none => trivial
    | some body => exact allWellFormed_iff.mpr (hother body rfl)
  count _ hbound hbody := ⟨hbound, allWellFormed_iff.mpr hbody⟩
  loop hcondition hbody := ⟨hcondition, allWellFormed_iff.mpr hbody⟩

end Stmt

/-! ## Names and comments -/

theorem wellFormed_ofLocal {id : Json} (hid : ∀ t, id = .str t → t.NoNewline)
    (hstable : Name.isStable id = true) {name : Text} (h : Name.ofLocal id = .ok name) :
    (Expr.name name).WellFormed := by
  cases id with
  | str t =>
    have hline := Text.noNewline_iff_onOneLine.mp (hid t rfl)
    exact wellFormed_name (by decide) hline h
  | _ => cases hstable

theorem Node.isStable_of_localId {n : Node} {v : Json} (h : n.localId? = some v) :
    Name.isStable v = true := by
  unfold Node.localId? at h
  split at h
  · split at h
    · split at h <;> cases h
      assumption
    · cases h
  · cases h

/-- No tag of the node breaks a line, and no id of it has a newline: its function, its parameter,
and its local variable if it reads or sets one. Names keep no other end of a line from their
ids. -/
structure Node.OnOneLine (ends : LineEnds) (n : Node) : Prop where
  tag : n.tag.shown.Unbroken ends
  function : ∀ id ∈ n.labels.function, id.NoNewline
  param : ∀ id ∈ n.labels.param, id.NoNewline
  variableId : n.tag = .str "get_func_variable" ∨ n.tag = .str "set_func_variable" →
    ∀ id, n.literal 0 = .str id → id.NoNewline

/-- A node that names no function, parameter or variable. -/
theorem onOneLine_of_plain {ends : LineEnds} {n : Node} {tag : Text} (htag : n.tag = .str tag)
    (hline : tag.Unbroken .all)
    (hfunction : n.labels.function = none) (hparam : n.labels.param = none)
    (hlocal : tag ∉ [Text.ofString "get_func_variable", Text.ofString "set_func_variable"]) :
    n.OnOneLine ends := by
  refine ⟨by rw [htag]; exact hline.of_all, by simp [hfunction], by simp [hparam], ?_⟩
  rintro (h | h) <;> rw [htag] at h <;> cases h <;> exact absurd hlocal (by simp)

section Comments

variable {ends : LineEnds}

theorem unbroken_describe {f : Failure} (h : f.tag.shown.Unbroken ends) :
    f.describe.Unbroken ends := by
  have hquote : (Text.ofString "'").Unbroken ends := .of_all (by decide)
  have hbetween : (Text.ofString " in '").Unbroken ends := .of_all (by decide)
  have hunresolved : (Text.ofString "unresolved expression '").Unbroken ends := .of_all (by decide)
  have hreason (r : Reason) : r.text.Unbroken ends := .of_all (by cases r <;> decide)
  obtain ⟨tag, reason⟩ := f
  cases reason <;> simp_all [Failure.describe]

theorem unbroken_unsupported {tag : Json} (h : tag.shown.Unbroken ends) :
    (unsupported tag).WellFormed ends := by
  have hfront : (Text.ofString "TODO: unsupported block '").Unbroken ends := .of_all (by decide)
  have hquote : (Text.ofString "'").Unbroken ends := .of_all (by decide)
  simp [unsupported, Stmt.WellFormed, h, hfront, hquote]

theorem unbroken_skipped {tag : Json} {f : Failure} (h : tag.shown.Unbroken ends)
    (hf : f.tag.shown.Unbroken ends) : (skipped tag f).WellFormed ends := by
  have hfront : (Text.ofString "skipped '").Unbroken ends := .of_all (by decide)
  have hbetween : (Text.ofString "': ").Unbroken ends := .of_all (by decide)
  simp [skipped, Stmt.WellFormed, h, hfront, hbetween, unbroken_describe hf]

/-- The tag that a failure names is that of a node, so it stays on its line. -/
theorem unbroken_of_names {f : Failure} {nodes : List Node} (h : ∀ m ∈ nodes, m.OnOneLine ends)
    (hf : f.Names nodes) : f.tag.shown.Unbroken ends := by
  obtain ⟨m, hm, htag⟩ := hf
  rw [← htag]
  exact (h m hm).tag

theorem pass_wellFormed {nodes : List Node} (h : ∀ m ∈ nodes, m.OnOneLine ends) :
    NodesPass Expr.WellFormed (Stmt.WellFormed ends) nodes where
  paramName n hn id hid name hname := by
    have hline := (h n hn).param id (Option.filter_eq_some_iff.mp hid).1
    exact wellFormed_name (by decide) (Text.noNewline_iff_onOneLine.mp hline) hname
  localName n hn id hid name hname := by
    obtain ⟨hliteral, htag⟩ := Node.literal_of_localId hid
    refine wellFormed_ofLocal (fun t ht => ?_) (Node.isStable_of_localId hid) hname
    exact (h n hn).variableId htag t (hliteral.trans ht)
  called n hn id hid name hname arguments harguments := by
    have hline := (h n hn).function id (Option.filter_eq_some_iff.mp hid).1
    have hword := wellFormed_name (c := 'f') (by decide) (Text.noNewline_iff_onOneLine.mp hline)
      hname
    have hfunc := closed_wellFormed.member closed_wellFormed.entry rfl (w := "func") (by decide)
    exact Expr.wellFormed_method rfl hfunc hword.1
      ⟨Expr.wellFormed_self, Expr.allWellFormed_iff.mpr harguments⟩
  waits _ _ _ _ he := he
  unsupported n hn := unbroken_unsupported (h n hn).tag
  skipped n hn f hf := unbroken_skipped (h n hn).tag (unbroken_of_names h hf)

/-! ## Bodies -/

theorem wellFormed_value {n : Node} (h : ∀ m ∈ n.walk, m.OnOneLine ends) (object : Json) :
    GivesOnly Expr.WellFormed (n.value {} object) :=
  closed_value closed_wellFormed (fun _ _ h => by cases h) object n (pass_wellFormed h).toNamedPass

theorem wellFormed_actions {n : Node} (h : ∀ m ∈ n.walk, m.OnOneLine ends) (s : Scope) :
    GivesOnly (Stmt.AllWellFormed ends) (n.actions {} s) := by
  have hforms := FormsPass.known closed_wellFormed (Stmt.closed_wellFormed ends s.level)
  intro made hmade
  exact Stmt.allWellFormed_iff.mpr
    (closed_actions hforms n (pass_wellFormed h) s (Int.le_refl _) made hmade)

theorem wellFormed_actionsAll {body : List Node} (h : ∀ m ∈ Node.walkAll body, m.OnOneLine ends)
    (s : Scope) : GivesOnly (Stmt.AllWellFormed ends) (Node.actionsAll {} body s) := by
  have hforms := FormsPass.known closed_wellFormed (Stmt.closed_wellFormed ends s.level)
  intro made hmade
  exact Stmt.allWellFormed_iff.mpr
    (closed_actionsAll hforms body (pass_wellFormed h) s (Int.le_refl _) made hmade)

end Comments

end BlockScript
