-- Whole declarations are well laid. A handler or a function is a head that opens a
-- block, the lines of its body and an end that closes what the head opened, so its
-- brackets match and its lines are indented by the blocks around them.
import BlockScript.Proofs.Building
import BlockScript.Proofs.Naming
import BlockScript.Proofs.Statements

namespace BlockScript

/-! ## Laid texts -/

/-- The text is made of lines that are well laid between the brackets `opened` before them and
`opened'` after them. -/
def Laid (ends : LineEnds) (width : Nat) (opened : List Mark) (t : Text) (opened' : List Mark) :
    Prop :=
  ∃ ls, t = renderLines width ls ∧ Lays ends width opened ls opened'

section Laid

variable {ends : LineEnds} {width : Nat} {opened opened' opened'' : List Mark}

theorem laid_nil : Laid ends width opened [] opened := ⟨[], rfl, lays_nil⟩

theorem laid_append {s t : Text} (hs : Laid ends width opened s opened')
    (ht : Laid ends width opened' t opened'') : Laid ends width opened (s ++ t) opened'' := by
  obtain ⟨ls, rfl, hls⟩ := hs
  obtain ⟨ms, rfl, hms⟩ := ht
  exact ⟨ls ++ ms, by simp [renderLines], lays_append hls hms⟩

theorem laid_line {l : Line} (h : Lays ends width opened [l] opened') :
    Laid ends width opened (l.render width) opened' :=
  ⟨[l], by simp [renderLines], h⟩

theorem laid_flatMap {α : Type} {f : α → Text} {l : List α}
    (h : ∀ a ∈ l, Laid ends width opened (f a) opened) :
    Laid ends width opened (l.flatMap f) opened := by
  induction l with
  | nil => exact laid_nil
  | cons a rest ih =>
    obtain ⟨ha, hrest⟩ := List.forall_mem_cons.mp h
    exact laid_append ha (ih hrest)

theorem wellLaid_of_laid {t : Text} (h : Laid ends width [] t []) : WellLaid ends width t := by
  obtain ⟨ls, rfl, hls⟩ := h
  exact wellLaid_of_lays hls

end Laid

/-! ## Names -/

theorem eq_ok_of_written {n : Except EncodeError Text} {t : Text} (h : written n = .ok t) :
    n = .ok t := by
  cases n <;> cases h
  rfl

theorem isWord_make {family : Text} (hfamily : IsWord family) {id : Json}
    (hid : ∀ t, id = .str t → t.NoNewline) {drawn : Nat} {name : Text}
    (h : Name.make family id drawn = .ok name) :
    IsWord name := by
  cases id with
  | str t =>
    obtain ⟨rest, rfl, hrest⟩ := make_eq (Text.noNewline_iff_onOneLine.mp (hid t rfl)) h
    exact Name.isWord_append hfamily hrest
  | _ =>
    cases h
    exact Name.isWord_anonymous hfamily drawn

/-! ## Lines of a body -/

section Lines

variable {ends : LineEnds} {width : Nat} {object : Json}

theorem laid_body {body : List Node} (h : ∀ n ∈ Node.walkAll body, n.OnOneLine ends)
    (opened : List Mark) :
    GivesOnly (Laid ends width opened · opened)
      (({ width } : Style).body (blocksOpen opened) body { object }) := by
  refine givesOnly_bind (wellFormed_actionsAll h { object })
    fun statements hstatements => givesOnly_ok ?_
  exact ⟨_, rfl, Stmt.lays_all width hstatements opened⟩

theorem lays_return {e : Expr} (h : e.WellFormed) (opened : List Mark) :
    Lays ends width opened [⟨blocksOpen opened, "return " ++ e.render 0 ++ ";"⟩] opened := by
  have hreturn (rest : Text) : Spells "return " [.word "return"] rest :=
    spells_leading (w := "return") (by decide) rest
  have hspells := spells_append (spells_append (hreturn _) (e.spells_render h 0 ⟨rfl, rfl⟩))
    (spells_semicolon [])
  refine lays_code rfl (by simp [e.noNewline_render h]) hspells ?_
  simp [e.balanced_render 0 opened, nestOne, Mark.isOpening, Mark.closed?]

theorem lays_let {w : Text} (h : IsWord w) (opened : List Mark) :
    Lays ends width opened [⟨blocksOpen opened, "let " ++ w ++ " = 0;"⟩] opened := by
  have hzero := spells_append (spells_zero ⟨rfl, rfl⟩) (spells_semicolon [])
  have hspells := spells_append (spells_let h _) hzero
  rw [List.append_assoc] at hspells
  exact lays_code rfl (by simp [noNewline_word h]) hspells rfl

end Lines

/-! ## Functions -/

section Functions

variable {ends : LineEnds} {width : Nat} {object : Json}

theorem laid_returned {value : Outcome} (h : GivesOnly Expr.WellFormed value)
    (hfails : FailsOnly (fun f => f.tag.shown.Unbroken ends) value) :
    GivesOnly (Laid ends width [.openBrace] · [.openBrace])
      (({ width } : Style).returned value) := by
  cases value with
  | ok e => exact givesOnly_ok (laid_line (lays_return (h e rfl) [.openBrace]))
  | error o =>
    cases o with
    | fault f => exact givesOnly_error _
    | failure f =>
      have hfront : (Text.ofString "skipped return: ").Unbroken ends := .of_all (by decide)
      have hdescribe : f.describe.Unbroken ends := unbroken_describe (hfails _ rfl)
      have hcomment : (Text.ofString "skipped return: " ++ f.describe).Unbroken ends := by
        simp [hfront, hdescribe]
      exact givesOnly_ok (laid_line (lays_comment hcomment))

theorem closed_assigned {Q : Expr → Prop} (hQ : Expr.Closed Q) {nodes : List Node}
    (h : NamedPass Q nodes) {n : Node} (hn : n ∈ nodes) :
    GivesOnly (fun found => ∀ e ∈ found, Q e) n.assigned? := by
  unfold Node.assigned?
  simp only
  split
  · rename_i haction
    split
    · rename_i hstable
      refine givesOnly_of_bind fun name hname => givesOnly_ok ?_
      rintro e ⟨⟩
      have hid := Node.localId_of_tag (Node.tag_of_action haction) (.inr rfl) hstable
      exact h.localName n hn _ hid name (eq_ok_of_written hname)
    · exact givesOnly_ok (by simp)
  · split
    · exact givesOnly_ok (by simp)
    · refine givesOnly_ok ?_
      rintro e ⟨⟩
      exact hQ.method hQ.projectVariables rfl (w := "get") (by decide) (by simp [hQ.quoted])

theorem closed_returnedVariable {Q : Expr → Prop} (hQ : Expr.Closed Q) {last : Node}
    (h : NamedPass Q last.walk) :
    GivesOnly (fun found => ∀ e ∈ found, Q e) (returnedVariable last) := by
  intro found hfound
  obtain ⟨assignment, hassignment, hfound⟩ := ok_of_bind_ok hfound
  cases assignment with
  | none =>
    cases hfound
    simp
  | some n =>
    have hmem := mem_of_lastAssignment hassignment
    rw [Node.walkAll_eq, List.flatMap_singleton] at hmem
    exact closed_assigned hQ h hmem found hfound

theorem laid_functionBody {f : Function} (h : ∀ n ∈ Node.walkAll f.body, n.OnOneLine ends) :
    GivesOnly (Laid ends width [.openBrace] · [.openBrace])
      (({ width } : Style).functionBody f { object }) := by
  have hbody : GivesOnly (Laid ends width [.openBrace] · [.openBrace])
      (({ width } : Style).body 1 f.body { object }) := laid_body h [.openBrace]
  unfold Style.functionBody
  split
  · rename_i last _ hlast
    have hlast : ∀ n ∈ last.walk, n.OnOneLine ends := fun n hn =>
      h n (Node.walk_subset_walkAll (List.mem_of_getLast? hlast) hn)
    refine givesOnly_bind (P := fun _ => True) (fun _ _ => trivial) fun hasValue _ => ?_
    refine givesOnly_bind (P := fun _ => True) (fun _ _ => trivial) fun isAction _ => ?_
    split
    · have hfront : GivesOnly (Laid ends width [.openBrace] · [.openBrace])
          (({ width } : Style).body 1 f.body.dropLast { object }) :=
        laid_body (fun n hn => h n (Node.walkAll_mono (List.dropLast_subset f.body) hn))
          [.openBrace]
      have hvalue := wellFormed_value hlast object
      have hfails := (failsOnly_value {} object last).mono fun e he =>
        unbroken_of_names hlast (he.mono fun _ hm => last.operands_subset_walk hm)
      refine givesOnly_bind hfront fun text htext => ?_
      refine givesOnly_bind (laid_returned hvalue hfails) fun line hline => ?_
      exact givesOnly_ok (laid_append htext hline)
    · refine givesOnly_bind hbody fun text htext => ?_
      split
      · exact givesOnly_ok htext
      · have hvariable :=
          closed_returnedVariable closed_wellFormed (pass_wellFormed hlast).toNamedPass
        refine givesOnly_bind hvariable fun found hfound => ?_
        cases found with
        | none => exact givesOnly_ok htext
        | some e =>
          refine givesOnly_ok (laid_append htext (laid_line ?_))
          exact lays_return (hfound e rfl) [.openBrace]
  · exact hbody

theorem spells_words {ws : List Text} (h : ∀ w ∈ ws, IsWord w) {rest : Text} (hr : Breaks rest) :
    Spells (Text.joined ", " ws) (separated (ws.map fun w => [.word w])) rest := by
  refine spells_joined hr ?_
  induction ws with
  | nil => exact .nil
  | cons w more ih =>
    obtain ⟨hw, hmore⟩ := List.forall_mem_cons.mp h
    exact .cons (fun rest hr => spells_word hw hr.1) (ih hmore)

theorem balanced_words (ws : List Text) :
    Balanced (separated (ws.map fun w => [Lexeme.word w])) := by
  refine balanced_separated fun ts hts => ?_
  obtain ⟨w, -, rfl⟩ := List.mem_map.mp hts
  exact balanced_cons (fun _ => rfl) balanced_nil

/-- The line that starts a function. -/
theorem lays_functionHead {name : Text} (hname : IsWord name) {params : List Text}
    (hparams : ∀ w ∈ params, IsWord w) :
    Lays ends width [] [⟨0, "Entry.func." ++ name ++ " = async function ("
      ++ Text.joined ", " ("self" :: params) ++ ") \x7b"⟩] [.openBrace] := by
  have hwords : ∀ w ∈ Text.ofString "self" :: params, IsWord w :=
    List.forall_mem_cons.mpr ⟨by decide, hparams⟩
  have htarget : (Expr.member (.member .entry "func") name).WellFormed :=
    ⟨rfl, ⟨rfl, Expr.wellFormed_entry, by decide⟩, hname⟩
  have hfunction (rest : Text) :
      Spells "async function (" [.word "async", .word "function", .mark .openParen] rest :=
    spells_append (spells_append (spells_leading (w := "async") (by decide) _)
      (spells_leading (w := "function") (by decide) _))
      (spells_bracket (s := "(") (m := .openParen) (by decide) rest)
  have hlist := spells_append (spells_words hwords ⟨rfl, rfl⟩) spells_opening
  have hspells := spells_append (Expr.spells_render htarget 0 ⟨rfl, rfl⟩)
    (spells_append (spells_between (s := "=") (by decide) _) (spells_append (hfunction _) hlist))
  have hline : (Text.joined ", " ("self" :: params)).NoNewline :=
    Text.noNewline_listed fun w hw => noNewline_word (hwords w hw)
  simp only [List.append_assoc] at hspells ⊢
  refine lays_code rfl (by simp [noNewline_word hname, hline]) hspells ?_
  have hbalanced := balanced_words ("self" :: params) [.openParen]
  rw [nest_append, Expr.balanced_render _ 0 []]
  simp [-List.map_cons, hbalanced, nestOne, Mark.isOpening, Mark.closed?]

theorem render_outer (t : Text) : Line.render width ⟨0, t⟩ = t ++ Text.ofString "\n" := rfl

/-- A function is laid out if its name, its parameters and its variables are words. -/
theorem laid_function {f : Function} (hid : ∀ t, f.id = .str t → t.NoNewline)
    (hparams : ∀ w ∈ f.params, IsWord w) (hlocals : ∀ w ∈ f.locals, IsWord w)
    (h : ∀ n ∈ Node.walkAll f.body, n.OnOneLine ends) :
    GivesOnly (WellLaid ends width) (({ width } : Style).function object f) := by
  intro t ht
  obtain ⟨name, hname, ht⟩ := ok_of_bind_ok ht
  obtain ⟨body, hbody, ht⟩ := ok_of_bind_ok ht
  cases ht
  have hname : IsWord name := isWord_make (by decide) hid (eq_ok_of_written hname)
  have hlines : Laid ends width [.openBrace]
      (f.locals.flatMap fun n => ({ width } : Style).line 1 ("let " ++ n ++ " = 0;"))
      [.openBrace] :=
    laid_flatMap fun w hw => laid_line (lays_let (hlocals w hw) [.openBrace])
  have hend : Lays ends width [.openBrace] [⟨0, "\x7d;"⟩] [] :=
    lays_close (by decide) (spells_semicolon []) rfl
  have hall := laid_append (laid_append (laid_append (laid_line (lays_functionHead hname hparams))
    hlines) (laid_functionBody h body hbody)) (laid_line hend)
  apply wellLaid_of_laid
  simp only [render_outer, List.append_assoc] at hall ⊢
  exact hall

end Functions

/-! ## Handlers -/

/-- A condition that can stand between the parentheses of a choice. -/
structure IsCondition (t : Text) : Prop where
  noNewline : t.NoNewline
  spells : ∃ ts, Balanced ts ∧ ∀ rest, Breaks rest → Spells t ts rest

theorem isCondition_render {e : Expr} (h : e.WellFormed) : IsCondition (e.render 0) :=
  ⟨e.noNewline_render h 0, _, e.balanced_render 0, fun _ hr => e.spells_render h 0 hr⟩

theorem isCondition_same {w : Text} (hw : IsWord w) {e : Expr} (h : e.WellFormed) :
    IsCondition (w ++ (" === " ++ e.render 0)) := by
  refine ⟨by simp [noNewline_word hw, e.noNewline_render h],
    .word w :: .mark .other :: e.fitLexemes e.bodyLexemes 0, ?_, fun rest hr => ?_⟩
  · exact balanced_cons (fun _ => rfl) (balanced_cons (fun _ => rfl) (e.balanced_render 0))
  · exact spells_append (spells_word hw rfl)
      (spells_append (spells_between (s := "===") (by decide) _) (e.spells_render h 0 hr))

theorem isCondition_key {arguments : List Argument} {condition : Text}
    (h : keyGuard? arguments = some condition) : IsCondition condition ∧ condition ≠ [] := by
  obtain ⟨key, -, h⟩ := Option.bind_eq_some_iff.mp h
  cases h
  refine ⟨?_, List.cons_ne_nil _ _⟩
  split
  · rename_i n hread
    have hnumeral : (Expr.numeral n).WellFormed := read_proper hread
    have hcondition := isCondition_same (w := "key") (by decide) hnumeral
    rwa [Expr.render_zero] at hcondition
  · exact isCondition_same (w := "key") (by decide) (Expr.wellFormed_quoted key)

theorem isCondition_message {arguments : List Argument} {condition : Text}
    (h : messageGuard? arguments = some condition) : IsCondition condition ∧ condition ≠ [] := by
  obtain ⟨message, -, h⟩ := Option.bind_eq_some_iff.mp h
  cases h
  refine ⟨?_, List.cons_ne_nil _ _⟩
  exact isCondition_same (w := "msg") (by decide) (Expr.wellFormed_quoted message)

/-- A binding that opens as many blocks as it says: none for an event without a condition, and one
for an event with one. -/
structure Binding.IsSound (b : Binding) : Prop where
  param : b.param = [] ∨ IsWord b.param
  guard : ∀ arguments condition, b.guard.condition? arguments = some condition →
    (condition = [] ∧ b.extraDepth = 0) ∨
      ((IsCondition condition ∧ condition ≠ []) ∧ b.extraDepth = 1)

theorem isSound_plain (event : Text) : Binding.IsSound { event } := by
  refine ⟨.inl rfl, ?_⟩
  rintro arguments condition ⟨⟩
  exact .inl ⟨rfl, rfl⟩

theorem isSound_guarded {event param : Text} {guard : Guard} (hparam : param = [] ∨ IsWord param)
    (h : ∀ arguments condition, guard.condition? arguments = some condition →
      IsCondition condition ∧ condition ≠ []) :
    Binding.IsSound { event, param, guard, extraDepth := 1 } :=
  ⟨hparam, fun arguments condition hcondition => .inr ⟨h arguments condition hcondition, rfl⟩⟩

theorem isSound_defaultBindings : ∀ entry ∈ defaultBindings, entry.2.IsSound := by
  have hclone : IsCondition "self.isClone" :=
    isCondition_render (e := .member .self "isClone") ⟨rfl, Expr.wellFormed_self, by decide⟩
  have hself : ∀ arguments condition,
      (Guard.condition "self.isClone").condition? arguments = some condition →
        IsCondition condition ∧ condition ≠ [] := by
    rintro arguments condition ⟨⟩
    exact ⟨hclone, List.cons_ne_nil _ _⟩
  simp only [defaultBindings, List.forall_mem_cons]
  refine ⟨isSound_plain _, isSound_guarded (.inr (by decide)) fun _ _ => isCondition_key,
    isSound_plain _, isSound_plain _, isSound_plain _, isSound_plain _,
    isSound_guarded (.inr (by decide)) fun _ _ => isCondition_message, isSound_plain _,
    isSound_guarded (.inl rfl) hself, by simp⟩

theorem mem_of_binding {tag : Text} {bindings : List (Text × Binding)} {b : Binding}
    (h : binding? tag bindings = some b) : (tag, b) ∈ bindings := by
  induction bindings with
  | nil => cases h
  | cons entry rest ih =>
    rw [binding?] at h
    split at h
    · rename_i htag
      cases h
      exact htag ▸ List.mem_cons_self
    · exact List.mem_cons_of_mem _ (ih h)

section Handlers

variable {ends : LineEnds} {width : Nat} {object : Json}

/-- The line that starts a handler leaves a parenthesis and a block open. -/
theorem lays_handlerHead (event : Text) {param : Text} (hparam : param = [] ∨ IsWord param) :
    Lays ends width []
      [⟨0, "self.on(" ++ event.quoted ++ ", async (" ++ param ++ ") => \x7b"⟩]
      [.openBrace, .openParen] := by
  have hon : (Expr.member .self "on").WellFormed := ⟨rfl, Expr.wellFormed_self, by decide⟩
  have hopen (rest : Text) : Spells "(" [.mark .openParen] rest := spells_bracket (by decide) rest
  have hasync (rest : Text) :
      Spells ", async (" [.mark .comma, .word "async", .mark .openParen] rest :=
    spells_append (spells_separator _)
      (spells_append (spells_leading (w := "async") (by decide) _) (hopen rest))
  have hbody : Spells ") => \x7b" [.mark .closeParen, .mark .other, .mark .openBrace] [] :=
    spells_append (spells_bracket (s := ")") (m := .closeParen) (by decide) _)
      (spells_append (spells_between (s := "=>") (by decide) _)
        (spells_bracket (s := "\x7b") (m := .openBrace) (by decide) []))
  obtain ⟨ts, hts, hnest⟩ :
      ∃ ts, (∀ rest, Breaks rest → Spells param ts rest) ∧ Balanced ts := by
    rcases hparam with rfl | hword
    · exact ⟨[], fun rest _ => spells_nil rest, balanced_nil⟩
    · exact ⟨[.word param], fun rest hr => spells_word hword hr.1,
        balanced_cons (fun _ => rfl) balanced_nil⟩
  have hline : param.NoNewline := by
    rcases hparam with rfl | hword
    · exact Text.noNewline_nil
    · exact noNewline_word hword
  have hspells := spells_append (Expr.spells_render hon 0 ⟨rfl, rfl⟩) (spells_append (hopen _)
    (spells_append (spells_quoted event _)
      (spells_append (hasync _) (spells_append (hts _ ⟨rfl, rfl⟩) hbody))))
  simp only [List.append_assoc] at hspells ⊢
  refine lays_code rfl (by simp [noNewline_quoted, hline]) hspells ?_
  rw [nest_append, Expr.balanced_render _ 0 []]
  simp [hnest [.openParen, .openParen], nestOne, Mark.isOpening, Mark.closed?]

/-- A body and its condition, if there is one, between the head of a handler and its end. -/
theorem laid_guarded {b : Binding} (hsound : b.IsSound) {arguments : List Argument}
    {condition : Text} (hcondition : b.guard.condition? arguments = some condition)
    {nodes : List Node} (hnodes : ∀ n ∈ Node.walkAll nodes, n.OnOneLine ends) {body : Text}
    (hbody : ({ width } : Style).body (1 + b.extraDepth) nodes { object } = .ok body) :
    Laid ends width [.openBrace, .openParen]
      (if condition.isEmpty then body
        else ({ width } : Style).line 1 ("if (" ++ condition ++ ") \x7b") ++ body
          ++ ({ width } : Style).line 1 "\x7d")
      [.openBrace, .openParen] := by
  rcases hsound.guard arguments condition hcondition with
    ⟨rfl, hdepth⟩ | ⟨⟨⟨hline, ts, hts, hspells⟩, hne⟩, hdepth⟩
    <;> rw [hdepth] at hbody
  · exact laid_body hnodes [.openBrace, .openParen] body hbody
  · have hlaid := laid_body hnodes [.openBrace, .openBrace, .openParen] body hbody
    have hif : Lays ends width [.openBrace, .openParen] _ _ :=
      lays_asking (w := "if") (by decide) hline hspells hts
    rw [if_neg (by simpa using hne)]
    exact laid_append (laid_append (laid_line hif) hlaid) (laid_line lays_end)

/-- A handler is laid out, whether its event has a condition or not. -/
theorem laid_handler {h : Handler} (hevent : h.event.Unbroken ends)
    (hnodes : ∀ n ∈ Node.walkAll h.body, n.OnOneLine ends) :
    GivesOnly (WellLaid ends width) (({ width } : Style).handler object h) := by
  have hquote : (Text.ofString "'").Unbroken ends := .of_all (by decide)
  have hcomment {t : Text} (ht : t.Unbroken ends) : WellLaid ends width ("// " ++ t ++ "\n") :=
    wellLaid_of_laid (laid_line (lays_comment ht))
  unfold Style.handler
  split
  · refine givesOnly_ok ?_
    have hfront : (Text.ofString "TODO: unsupported event '").Unbroken ends := .of_all (by decide)
    have hline : (Text.ofString "TODO: unsupported event '" ++ h.event ++ "'").Unbroken ends := by
      simp [hfront, hevent, hquote]
    have hlaid := hcomment hline
    simp only [List.append_assoc] at hlaid ⊢
    exact hlaid
  · rename_i b hb
    have hsound := isSound_defaultBindings _ (mem_of_binding hb)
    split
    · refine givesOnly_ok ?_
      have hfront : (Text.ofString "skipped handler '").Unbroken ends := .of_all (by decide)
      have hback : (Text.ofString "': missing event argument").Unbroken ends := .of_all (by decide)
      have hline : (Text.ofString "skipped handler '" ++ h.event ++
          "': missing event argument").Unbroken ends := by
        simp [hfront, hevent, hback]
      have hlaid := hcomment hline
      simp only [List.append_assoc] at hlaid ⊢
      exact hlaid
    · rename_i condition hcondition
      intro t ht
      obtain ⟨body, hbody, ht⟩ := ok_of_bind_ok ht
      cases ht
      have hend : Lays ends width [.openBrace, .openParen] [⟨0, "\x7d);"⟩] [] := by
        have hclose := spells_append (spells_bracket (s := ")") (m := .closeParen) (by decide) _)
          (spells_semicolon [])
        exact lays_close (by decide) hclose rfl
      have hall := laid_append (laid_append (laid_line (lays_handlerHead b.event hsound.param))
        (laid_guarded hsound hcondition hnodes hbody)) (laid_line hend)
      apply wellLaid_of_laid
      simp only [render_outer, List.append_assoc] at hall ⊢
      exact hall

end Handlers

/-! ## Declarations of a script -/

theorem Node.OnOneLine.ids {ends : LineEnds} {n : Node} (h : n.OnOneLine ends) {id : Text}
    (hid : id ∈ n.ids) : id.NoNewline := by
  simp only [Node.ids, List.mem_append, Option.mem_toList] at hid
  rcases hid with (hid | hid) | hid
  · exact h.function id hid
  · exact h.param id hid
  · obtain ⟨v, hv, hid⟩ := Option.bind_eq_some_iff.mp hid
    rw [Json.eq_str_of_text hid] at hv
    obtain ⟨hliteral, htag⟩ := Node.literal_of_localId hv
    exact h.variableId htag id hliteral

theorem isWord_paramNames {ends : LineEnds} {n : Node} (h : ∀ m ∈ n.walk, m.OnOneLine ends) :
    GivesOnly (fun names => ∀ w ∈ names, IsWord w) n.paramNames := by
  intro names hnames w hw
  obtain ⟨p, hp, hname⟩ := mem_of_mapM_ok hnames w hw
  obtain ⟨field, hfield, hparam⟩ := List.mem_filterMap.mp hp
  obtain ⟨m, hm, hmem⟩ := Node.mem_of_fieldParam hparam
  have hline := (h m (Node.walk_of_mem_fieldChain n hfield hm)).ids hmem
  exact isWord_make (by decide) (fun t ht => by cases ht; exact hline) (eq_ok_of_written hname)

theorem mem_of_firsts {seen ts : List Text} {t : Text} (h : t ∈ firsts seen ts) : t ∈ ts := by
  induction ts generalizing seen with
  | nil => cases h
  | cons u rest ih =>
    rw [firsts] at h
    split at h
    · exact List.mem_cons_of_mem _ (ih h)
    · rcases List.mem_cons.mp h with rfl | h
      · exact List.mem_cons_self
      · exact List.mem_cons_of_mem _ (ih h)

theorem isWord_localNames {ends : LineEnds} {body : List Node}
    (h : ∀ n ∈ Node.walkAll body, n.OnOneLine ends) :
    GivesOnly (fun names => ∀ w ∈ names, IsWord w) (localNames body) := by
  intro names hnames w hw
  obtain ⟨found, hfound, hnames⟩ := ok_of_bind_ok hnames
  cases hnames
  obtain ⟨_, hname, rfl⟩ := List.mem_filterMap.mp (mem_of_firsts hw)
  obtain ⟨n, hn, hname⟩ := mem_of_mapM_ok hfound _ hname
  unfold Node.localName? at hname
  split at hname
  · rename_i id hid
    obtain ⟨made, hmade, hname⟩ := ok_of_bind_ok hname
    cases hname
    obtain ⟨hliteral, htag⟩ := Node.literal_of_localId hid
    have hline := (h n hn).variableId htag
    rw [hliteral] at hline
    exact isWord_make (by decide) hline (eq_ok_of_written hmade)
  · obtain ⟨-, -, hname⟩ := ok_of_bind_ok hname
    cases hname

namespace Declaration

/-- The text of a declaration in a script of the given object. -/
def text (y : Style) (object : Json) : Declaration → Except Fault Text
  | .handler h => y.handler object h
  | .function f => y.function object f

/-- The id that a declaration is named by. A handler has none. -/
def id : Declaration → Json
  | .handler _ => .null
  | .function f => f.id

theorem errsOnly_text (y : Style) (object : Json) (d : Declaration) :
    ErrsOnly (fun e => CausedIn (Node.walkAll d.body) e ∨ d.id.Unencodable e)
      (d.text y object) := by
  cases d with
  | handler h => exact (errsOnly_handler y object h).mono fun _ => .inl
  | function f => exact errsOnly_function y object f

end Declaration

theorem laid_text {ends : LineEnds} {width : Nat} {isStart : Text → Bool}
    {object functionId : Json} {draws : Draws} {stack : Json} {d : Declaration}
    (h : Declaration.ofStack? isStart object functionId draws stack = .ok (some d))
    (hnodes : ∀ n ∈ Node.walkAll (Json.roles object draws stack).stack, n.OnOneLine ends)
    (hid : ∀ t, d.id = .str t → t.NoNewline) :
    GivesOnly (WellLaid ends width) (d.text { width } object) := by
  have hbody : ∀ n ∈ Node.walkAll d.body, n.OnOneLine ends := fun n hn =>
    hnodes n (body_subset_stack h hn)
  rcases ofStack_cases isStart object functionId draws stack with
    h' | ⟨fields, rest, tag, rfl, htag, h' | h'⟩ <;> rw [h'] at h
  · cases h
  · cases h
    rw [stack_cons_block htag] at hnodes
    have hhead := hnodes (nodeOf object draws.first tag fields)
      (List.mem_append_left _ (Node.mem_walk_self _))
    exact laid_handler hhead.tag hbody
  · obtain ⟨f, hf, h⟩ := ok_of_bind_ok h
    cases h
    rw [stack_cons_block htag] at hnodes
    have hdefinition : ∀ n ∈ (nodeOf object draws.first tag fields).walk, n.OnOneLine ends :=
      fun n hn => hnodes n (List.mem_append_left _ hn)
    obtain ⟨params, hparams, hf⟩ := ok_of_bind_ok hf
    obtain ⟨locals, hlocals, hf⟩ := ok_of_bind_ok hf
    cases hf
    exact laid_function hid (isWord_paramNames hdefinition params hparams)
      (isWord_localNames hbody locals hlocals) hbody

/-- Every declaration of a script is written in well-laid lines, whatever the texts in its blocks
hold and whatever is taken for the end of a line, as long as no tag breaks its line by that. It has
no text only where work stops at one of its blocks or at its own id. -/
theorem declarations_are_well_laid (ends : LineEnds) (width : Nat) {draws : Draws}
    {script object functionId : Json} {p : Program}
    (hbuild : Program.build draws script object functionId = .ok p)
    (hnodes : ∀ n ∈ scriptNodes object draws script, n.OnOneLine ends)
    {d : Declaration} (hd : d ∈ p) (hid : ∀ t, d.id = .str t → t.NoNewline) :
    (∃ t, d.text { width } object = .ok t ∧ WellLaid ends width t) ∨
      ∃ e, d.text { width } object = .error e ∧
        (CausedIn (Node.walkAll d.body) e ∨ d.id.Unencodable e) := by
  obtain ⟨s, hs, hdecl⟩ := stack_of_build hbuild hd
  have hlaid : GivesOnly (WellLaid ends width) (d.text { width } object) :=
    laid_text hdecl (fun n hn => hnodes n (List.mem_flatMap.mpr ⟨s, hs, hn⟩)) hid
  cases htext : d.text { width } object with
  | ok t => exact .inl ⟨t, rfl, hlaid t htext⟩
  | error e => exact .inr ⟨e, rfl, d.errsOnly_text { width } object e htext⟩

/-- A handler of a key whose loop says a text with a quote, a newline and brackets in it. -/
def bracketStack : Json :=
  .arr [.obj [("type", .str "when_some_key_pressed"), ("params", .arr [.str "65"])],
    .obj [("type", .str "repeat_basic"), ("params", .arr [.int 3]),
      ("statements", .arr [.arr [
        .obj [("type", .str "dialog"), ("params", .arr [.str "\x7d\"\n("])]]])]]

def bracketText : Text :=
  "self.on(\"keydown\", async (key) => \x7b\n  if (key === 65) \x7b\n"
    ++ "    for (let _i0 = 0, _n0 = 3; _i0 < _n0; _i0++) \x7b\n"
    ++ "      self.say(\"\x7d\\\"\\n(\");\n      await Entry.yield();\n"
    ++ "    \x7d\n  \x7d\n\x7d);\n"

theorem bracketStack_onOneLine (ends : LineEnds) :
    ∀ n ∈ scriptNodes .null (.all 0) (.arr [bracketStack]), n.OnOneLine ends := by
  obtain ⟨start, loop, say, hnodes, hstart, hloop, hsay⟩ : ∃ start loop say,
      scriptNodes .null (.all 0) (.arr [bracketStack]) = [start, loop, say] ∧
      start.OnOneLine ends ∧ loop.OnOneLine ends ∧ say.OnOneLine ends := by
    refine ⟨_, _, _, rfl, ?_, ?_, ?_⟩ <;>
      exact onOneLine_of_plain rfl (by decide) (by decide) (by decide) (by decide)
  rw [hnodes]
  simp [hstart, hloop, hsay]

theorem bracketStack_is_well_laid :
    ∃ d, Program.build (.all 0) (.arr [bracketStack]) .null .null = .ok [d] ∧
      (∀ n ∈ scriptNodes .null (.all 0) (.arr [bracketStack]), n.OnOneLine .all) ∧
      (∀ t, d.id = .str t → t.NoNewline) ∧
      d.text { width := 2 } .null = .ok bracketText ∧ WellLaid .newlineOnly 2 bracketText ∧
      WellLaid .all 2 bracketText := by
  obtain ⟨d, hbuild, hid, htext⟩ : ∃ d,
      Program.build (.all 0) (.arr [bracketStack]) .null .null = .ok [d] ∧
      (∀ t, d.id = .str t → t.NoNewline) ∧ d.text { width := 2 } .null = .ok bracketText :=
    ⟨_, rfl, nofun, rfl⟩
  have hlaid (ends : LineEnds) : WellLaid ends 2 bracketText := by
    rcases declarations_are_well_laid ends 2 hbuild (bracketStack_onOneLine ends)
      List.mem_cons_self hid with ⟨t, ht, hlaid⟩ | ⟨e, he, -⟩
    · rw [htext] at ht
      cases ht
      exact hlaid
    · rw [htext] at he
      cases he
  exact ⟨d, hbuild, bracketStack_onOneLine .all, hid, htext, hlaid .newlineOnly, hlaid .all⟩

/-- A list stands where the operator of a calculation is looked for. -/
def listOperand : Json :=
  .arr [.obj [("type", .str "when_run_button_click")],
    .obj [("type", .str "move_x"), ("params", .arr [.obj [("type", .str "calc_basic"),
      ("params", .arr [.arr [.int 1], .str "PLUS", .int 2])]])]]

/-- A declaration without a single newline in its script that has no text. -/
theorem list_operand_has_no_text :
    (∀ n ∈ scriptNodes .null (.all 0) (.arr [listOperand]), n.OnOneLine .all) ∧
    ∃ d, Program.build (.all 0) (.arr [listOperand]) .null .null = .ok [d] ∧
      d.text { width := 2 } .null = .error (.notAKey (.arr [.int 1])) := by
  refine ⟨?_, _, rfl, rfl⟩
  obtain ⟨start, move, sum, hnodes, hstart, hmove, hsum⟩ : ∃ start move sum,
      scriptNodes .null (.all 0) (.arr [listOperand]) = [start, move, sum] ∧
      start.OnOneLine .all ∧ move.OnOneLine .all ∧ sum.OnOneLine .all := by
    refine ⟨_, _, _, rfl, ?_, ?_, ?_⟩ <;>
      exact onOneLine_of_plain rfl (by decide) (by decide) (by decide) (by decide)
  rw [hnodes]
  simp [hstart, hmove, hsum]

end BlockScript
