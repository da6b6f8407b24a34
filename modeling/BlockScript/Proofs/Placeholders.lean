-- Placeholders: comments that stand for what cannot be compiled. A
-- placeholder is one comment line exactly if no tag that it names holds a
-- newline, and each tag it names is that of a block which it stands for.
import BlockScript.Proofs.Failures

namespace BlockScript

/-! ## Comment lines -/

/-- One comment line: two slashes behind an indentation, and a newline at the very end and nowhere
else. -/
def IsCommentLine (indent : Nat) (t : Text) : Prop :=
  ∃ rest, t = Text.spaces indent ++ "//" ++ rest ++ "\n" ∧ .char '\n' ∉ rest

theorem isCommentLine_iff (indent : Nat) (rest : Text) :
    IsCommentLine indent (Text.spaces indent ++ "//" ++ rest ++ "\n") ↔ .char '\n' ∉ rest := by
  constructor
  · rintro ⟨rest', heq, hline⟩
    rw [List.append_cancel_left (List.append_cancel_right heq)]
    exact hline
  · intro hline
    exact ⟨rest, rfl, hline⟩

theorem isCommentLine_comment (width : Nat) (depth : Int) (t : Text) :
    IsCommentLine (width * depth.toNat) (renderLines width (Stmt.linesAll depth [.comment t])) ↔
      .char '\n' ∉ t := by
  have htext : renderLines width (Stmt.linesAll depth [.comment t]) =
      Text.spaces (width * depth.toNat) ++ "//" ++ (" " ++ t) ++ "\n" := by
    simp [renderLines, Stmt.linesAll, Stmt.lines, Line.render, Text.ofString]
  rw [htext, isCommentLine_iff]
  simp [Text.ofString]

theorem newline_mem_describe (f : Failure) :
    .char '\n' ∈ f.describe ↔ .char '\n' ∈ f.tag.shown := by
  obtain ⟨tag, reason⟩ := f
  cases reason <;> simp [Failure.describe, Reason.text, Text.ofString]

theorem newline_mem_unsupported (tag : Json) :
    .char '\n' ∈ Text.ofString "TODO: unsupported block '" ++ tag.shown ++ "'" ↔
      .char '\n' ∈ tag.shown := by
  simp [Text.ofString]

theorem newline_mem_skipped (tag : Json) (f : Failure) :
    .char '\n' ∈ Text.ofString "skipped '" ++ tag.shown ++ "': " ++ f.describe ↔
      .char '\n' ∈ tag.shown ∨ .char '\n' ∈ f.tag.shown := by
  simp [newline_mem_describe, Text.ofString]

/-! ## Actions -/

namespace Node

theorem failsOnly_attempt {x : Extensions} {s : Scope} {n : Node}
    {made : Except Obstacle (List Stmt)} (h : n.attempt? x s = some made) :
    FailsOnly (·.Names n.operands) made := by
  have hslots : ∀ slot ∈ Argument.slots x s.object n.arguments,
      FailsOnly (·.Names n.operands) slot.made := by
    intro slot hslot
    refine (failsOnly_slots x s.object n.arguments slot hslot).mono fun f hf => hf.mono ?_
    intro m hm
    cases n
    exact List.mem_cons_of_mem _ hm
  refine errsOnly_attempt (fun _ => ⟨n, n.mem_operands_self, rfl⟩) (fun _ _ => trivial) hslots ?_ h
  exact fun b _ => ⟨fun _ _ _ => trivial, fun _ _ => trivial⟩

/-- A node that leaves only a placeholder, and the tags that this names: there is no way to compile
the node, or a value that it needs does not resolve. -/
inductive LeavesPlaceholder (x : Extensions) (s : Scope) (n : Node) : List Json → Prop
  | unsupported : n.attempt? x s = none → n.LeavesPlaceholder x s [n.tag]
  | skipped {f : Failure} : n.attempt? x s = some (.error (.failure f)) →
      n.LeavesPlaceholder x s [n.tag, f.tag]

theorem placeholder_of_actions {x : Extensions} {s : Scope} {n : Node} {tags : List Json}
    (hkey : n.tag.isKey = true) (h : n.LeavesPlaceholder x s tags) (width : Nat) (depth : Int) :
    ∃ statements, n.actions x s = .ok statements ∧
      (∀ tag ∈ tags, ∃ m ∈ n.operands, m.tag = tag) ∧
      (IsCommentLine (width * depth.toNat) (renderLines width (Stmt.linesAll depth statements)) ↔
        ∀ tag ∈ tags, .char '\n' ∉ tag.shown) := by
  rw [actions_eq hkey]
  cases h with
  | unsupported hnone =>
    rw [hnone]
    refine ⟨_, rfl, ?_, ?_⟩
    · intro tag htag
      exact ⟨n, n.mem_operands_self, (List.mem_singleton.mp htag).symm⟩
    · rw [BlockScript.unsupported, isCommentLine_comment, newline_mem_unsupported]
      simp
  | @skipped f hsome =>
    rw [hsome]
    refine ⟨_, rfl, ?_, ?_⟩
    · intro tag htag
      rcases List.mem_cons.mp htag with rfl | htag
      · exact ⟨n, n.mem_operands_self, rfl⟩
      · rw [List.mem_singleton.mp htag]
        exact failsOnly_attempt hsome _ rfl
    · rw [BlockScript.skipped, isCommentLine_comment, newline_mem_skipped]
      simp

end Node

/-! ## Handlers and functions -/

/-- A handler that leaves only a placeholder: no event is bound to its start block, or what the
event has to be asked for is missing. -/
def Handler.LeavesPlaceholder (bindings : List (Text × Binding)) (h : Handler) : Prop :=
  ∀ b, binding? h.event bindings = some b → b.guard.condition? h.arguments = none

theorem Handler.placeholder {y : Style} {h : Handler} (hleaves : h.LeavesPlaceholder y.bindings)
    (object : Json) :
    ∃ text, y.handler object h = .ok text ∧ (IsCommentLine 0 text ↔ .char '\n' ∉ h.event) := by
  unfold Style.handler
  cases hbinding : binding? h.event y.bindings with
  | none =>
    refine ⟨_, rfl, ?_⟩
    have hline := isCommentLine_iff 0 (" TODO: unsupported event '" ++ h.event ++ "'")
    simpa [Text.ofString, Text.spaces] using hline
  | some b =>
    simp only [hleaves b hbinding]
    refine ⟨_, rfl, ?_⟩
    have hline :=
      isCommentLine_iff 0 (" skipped handler '" ++ h.event ++ "': missing event argument")
    simpa [Text.ofString, Text.spaces] using hline

/-- A function whose last block should be its value, but fails. -/
structure Function.LacksValue (x : Extensions) (object : Json) (f : Function) (last : Node)
    (e : Failure) : Prop where
  returns : f.returnsValue = true
  isLast : f.body.getLast? = some last
  isValue : last.isValue x = .ok true
  isAction : last.isAction x = .ok false
  fails : last.value x object = .error (.failure e)

/-- The notice in place of a returned value. -/
def Style.notice (y : Style) (e : Failure) : Text := y.line 1 ("// skipped return: " ++ e.describe)

theorem isCommentLine_notice (y : Style) (e : Failure) :
    IsCommentLine y.width (y.notice e) ↔ .char '\n' ∉ e.tag.shown := by
  have hline := isCommentLine_iff y.width (" skipped return: " ++ e.describe)
  rw [← newline_mem_describe e]
  simpa [Style.notice, Style.line, Line.render, Text.ofString] using hline

/-- Whole lines behind a text that ends with a newline end with one. -/
theorem getLast_append_lines {α : Type} {line : α → Text}
    (hline : ∀ a, (line a).getLast? = some (.char '\n')) {front : Text}
    (hfront : front.getLast? = some (.char '\n')) (l : List α) :
    (front ++ l.flatMap line).getLast? = some (.char '\n') := by
  induction l generalizing front with
  | nil => simpa using hfront
  | cons a rest ih =>
    rw [List.flatMap_cons, ← List.append_assoc]
    apply ih
    rw [List.getLast?_append, hline]
    rfl

theorem getLast_line (width : Nat) (l : Line) :
    (Line.render width l).getLast? = some (.char '\n') := by
  simp [Line.render, Text.ofString]

theorem Function.body_of_lacksValue {y : Style} {object : Json} {f : Function} {last : Node}
    {e : Failure} {body : Text} (hlacks : f.LacksValue y.extensions object last e)
    (h : y.functionBody f { object } = .ok body) :
    ∃ lines, body = renderLines y.width lines ++ y.notice e := by
  unfold Style.functionBody at h
  rw [hlacks.returns, hlacks.isLast] at h
  obtain ⟨hasValue, hvalue, h⟩ := ok_of_bind_ok h
  rw [hlacks.isValue] at hvalue
  cases hvalue
  obtain ⟨acts, hacts, h⟩ := ok_of_bind_ok h
  rw [hlacks.isAction] at hacts
  cases hacts
  obtain ⟨front, hfront, h⟩ := ok_of_bind_ok h
  obtain ⟨statements, -, hfront⟩ := ok_of_bind_ok hfront
  cases hfront
  simp only [hlacks.fails] at h
  cases h
  exact ⟨_, rfl⟩

/-- The notice stands on a line of its own at the end of the function, and it names a block that
the value was to be made of. -/
theorem Function.notice_of_lacksValue {y : Style} {object : Json} {f : Function} {last : Node}
    {e : Failure} {text : Text} (hlacks : f.LacksValue y.extensions object last e)
    (h : y.function object f = .ok text) :
    e.Names last.operands ∧
      ∃ front, text = front ++ y.notice e ++ "\x7d;\n" ∧ front.getLast? = some (.char '\n') := by
  refine ⟨failsOnly_value y.extensions object last _ hlacks.fails, ?_⟩
  obtain ⟨name, -, h⟩ := ok_of_bind_ok h
  obtain ⟨body, hbody, h⟩ := ok_of_bind_ok h
  cases h
  obtain ⟨lines, rfl⟩ := Function.body_of_lacksValue hlacks hbody
  rw [← List.append_assoc _ (renderLines y.width lines)]
  refine ⟨_, rfl, ?_⟩
  apply getLast_append_lines (getLast_line y.width)
  apply getLast_append_lines fun n => getLast_line y.width _
  rw [List.getLast?_append]
  rfl

/-- A placeholder is one comment line exactly if no tag that it names holds a newline. It stands
for an action that cannot be compiled, for a handler, or for the value of a function, and every tag
that it names is the tag of a block that it stands for. -/
theorem placeholder_is_one_line_iff (y : Style) (object : Json) :
    (∀ (s : Scope) (n : Node) (depth : Int) (tags : List Json), n.tag.isKey = true →
      n.LeavesPlaceholder y.extensions s tags →
      ∃ statements, n.actions y.extensions s = .ok statements ∧
        (∀ tag ∈ tags, ∃ m ∈ n.operands, m.tag = tag) ∧
        (IsCommentLine (y.width * depth.toNat)
            (renderLines y.width (Stmt.linesAll depth statements)) ↔
          ∀ tag ∈ tags, .char '\n' ∉ tag.shown)) ∧
    (∀ h : Handler, h.LeavesPlaceholder y.bindings →
      ∃ text, y.handler object h = .ok text ∧ (IsCommentLine 0 text ↔ .char '\n' ∉ h.event)) ∧
    ∀ (f : Function) (last : Node) (e : Failure) (text : Text),
      f.LacksValue y.extensions object last e → y.function object f = .ok text →
      e.Names last.operands ∧
      (∃ front, text = front ++ y.notice e ++ "\x7d;\n" ∧ front.getLast? = some (.char '\n')) ∧
      (IsCommentLine y.width (y.notice e) ↔ .char '\n' ∉ e.tag.shown) := by
  refine ⟨?_, ?_, ?_⟩
  · intro s n depth tags hkey hleaves
    exact Node.placeholder_of_actions hkey hleaves y.width depth
  · intro h hleaves
    exact Handler.placeholder hleaves object
  · intro f last e text hlacks htext
    obtain ⟨hnames, hfront⟩ := Function.notice_of_lacksValue hlacks htext
    exact ⟨hnames, hfront, isCommentLine_notice y e⟩

/-- An action with an unknown block in it, a handler of an unknown event, and a function whose value
is such an action's. -/
theorem unknown_blocks_leave_one_line :
    let unknown : Node := .mk (.str "mystery") [] [] {}
    let n : Node := .mk (.str "move_x") [.block unknown] [] {}
    let h : Handler := { event := "when_moon_rises" }
    let last : Node := .mk (.str "length_of_string") [.block unknown] [] {}
    let f : Function := { id := .str "f", returnsValue := true, body := [last] }
    let e : Failure := { tag := .str "mystery", reason := .unsupported }
    n.LeavesPlaceholder {} {} [.str "move_x", .str "mystery"] ∧
    (∃ statements, n.actions {} {} = .ok statements ∧
      IsCommentLine 2 (renderLines 2 (Stmt.linesAll 1 statements))) ∧
    h.LeavesPlaceholder defaultBindings ∧
    (∃ text, ({} : Style).handler .null h = .ok text ∧ IsCommentLine 0 text) ∧
    f.LacksValue {} .null last e ∧ IsCommentLine 2 (({} : Style).notice e) := by
  intro unknown n h last f e
  have hn : n.LeavesPlaceholder {} {} [.str "move_x", .str "mystery"] :=
    .skipped (f := e) rfl
  have hh : h.LeavesPlaceholder defaultBindings := by
    intro b hb
    cases hb
  have hf : f.LacksValue {} .null last e := ⟨rfl, rfl, rfl, rfl, rfl⟩
  obtain ⟨hactions, hhandlers, hfunctions⟩ := placeholder_is_one_line_iff {} .null
  obtain ⟨statements, hstatements, -, hline⟩ := hactions {} n 1 _ rfl hn
  obtain ⟨text, htext, hline'⟩ := hhandlers h hh
  obtain ⟨-, -, hline''⟩ := hfunctions f last e _ hf rfl
  exact ⟨hn, ⟨statements, hstatements, hline.mpr (by decide)⟩, hh,
    ⟨text, htext, hline'.mpr (by decide)⟩, hf, hline''.mpr (by decide)⟩

/-- A tag with a newline ends the comment, and the rest of the tag is code. -/
theorem newline_in_a_tag_leaves_code :
    let n : Node := .mk (.str "a\nEntry.stop();//") [] [] {}
    ∃ statements, n.actions {} {} = .ok statements ∧
      renderLines 2 (Stmt.linesAll 0 statements)
        = "// TODO: unsupported block 'a\nEntry.stop();//'\n" ∧
      ¬ IsCommentLine 0 (renderLines 2 (Stmt.linesAll 0 statements)) := by
  intro n
  refine ⟨_, rfl, by decide +kernel, ?_⟩
  intro hline
  exact (isCommentLine_comment 2 0 _).mp hline (by decide +kernel)

end BlockScript
