-- Statements that wait. A statement waits if some expression in it does, and then
-- one of its lines is code that shows it.
import BlockScript.Proofs.Layout

namespace BlockScript

/-! ## Expressions -/

/-- The word in front of what is waited for. -/
def awaitWord : Text := "await "

theorem infix_joined {t : Text} {parts : List Text} (h : t ∈ parts) :
    t <:+: Text.joined ", " parts := by
  induction parts with
  | nil => cases h
  | cons u rest ih =>
    cases rest with
    | nil =>
      rw [List.mem_singleton.mp h]
      exact List.infix_rfl
    | cons v more =>
      change t <:+: u ++ ", " ++ Text.joined ", " (v :: more)
      rcases List.mem_cons.mp h with rfl | h
      · rw [List.append_assoc]
        exact (List.prefix_append _ _).isInfix
      · exact (ih h).trans (List.suffix_append _ _).isInfix

namespace Expr

mutual

/-- Whether the expression waits for something, at any depth. -/
@[simp]
def awaits : Expr → Bool
  | .await _ => true
  | .member e _ | .not e => awaits e
  | .call callee arguments => awaits callee || anyAwaits arguments
  | .binary _ left right => awaits left || awaits right
  | .numeral _ | .plain _ | .data _ | .zero | .text _ | .name _ | .verbatim _ => false

@[simp]
def anyAwaits : List Expr → Bool
  | [] => false
  | e :: rest => awaits e || anyAwaits rest

end

theorem infix_fit (e : Expr) {t : Text} (h : awaitWord <:+: t) (place : Int) :
    awaitWord <:+: e.fit t place := by
  unfold fit wrap
  split
  · split
    · exact h.trans (List.infix_append _ _ _)
    · exact h
  · exact h

mutual

/-- An expression that waits shows it. -/
theorem infix_body {e : Expr} (h : e.awaits = true) : awaitWord <:+: e.body := by
  match e with
  | .await e => exact (List.prefix_append _ _).isInfix
  | .not e =>
    have h : e.awaits = true := by simpa [awaits] using h
    exact (infix_fit e (infix_body h) _).trans (List.suffix_append _ _).isInfix
  | .member e field =>
    have h : e.awaits = true := by simpa [awaits] using h
    rw [body, List.append_assoc]
    exact (infix_fit e (infix_body h) _).trans (List.prefix_append _ _).isInfix
  | .call callee arguments =>
    simp only [awaits, Bool.or_eq_true] at h
    rcases h with h | h
    · simp only [body, List.append_assoc]
      exact (infix_fit callee (infix_body h) _).trans (List.prefix_append _ _).isInfix
    · obtain ⟨t, ht, hwithin⟩ := infix_bodies h
      exact (hwithin.trans (infix_joined ht)).trans (List.infix_append _ _ _)
  | .binary op left right =>
    simp only [awaits, Bool.or_eq_true] at h
    rcases h with h | h
    · simp only [body, List.append_assoc]
      exact (infix_fit left (infix_body h) _).trans (List.prefix_append _ _).isInfix
    · exact (infix_fit right (infix_body h) _).trans (List.suffix_append _ _).isInfix

theorem infix_bodies {es : List Expr} (h : anyAwaits es = true) :
    ∃ t ∈ bodies es, awaitWord <:+: t := by
  match es with
  | e :: rest =>
    simp only [anyAwaits, Bool.or_eq_true] at h
    rcases h with h | h
    · exact ⟨e.body, List.mem_cons_self, infix_body h⟩
    · obtain ⟨t, ht, hwithin⟩ := infix_bodies h
      exact ⟨t, List.mem_cons_of_mem _ ht, hwithin⟩

end

theorem infix_render {e : Expr} (h : e.awaits = true) (place : Int) :
    awaitWord <:+: e.render place :=
  infix_fit e (infix_body h) place

end Expr

/-! ## Statements -/

namespace Stmt

mutual

/-- Whether the statement waits for something, at any depth. -/
@[simp]
def awaits : Stmt → Bool
  | .comment _ | .verbatim _ | .jump _ => false
  | .run e => e.awaits
  | .set target e | .raise target e => target.awaits || e.awaits
  | .choose condition body other => condition.awaits || awaitsAny body || awaitsElse other
  | .count _ bound body => bound.awaits || awaitsAny body
  | .loop condition body => condition.awaits || awaitsAny body

@[simp]
def awaitsAny : List Stmt → Bool
  | [] => false
  | s :: rest => awaits s || awaitsAny rest

@[simp]
def awaitsElse : Option (List Stmt) → Bool
  | none => false
  | some body => awaitsAny body

end

mutual

/-- Every line of code in the statement starts with a word, so that none is taken for a comment. -/
@[simp]
def leads : Stmt → Bool
  | .comment _ | .jump _ => true
  | .verbatim _ => false
  | .run e => e.leads
  | .set target _ | .raise target _ => target.leads
  | .choose _ body other => leadAll body && leadElse other
  | .count _ _ body | .loop _ body => leadAll body

@[simp]
def leadAll : List Stmt → Bool
  | [] => true
  | s :: rest => leads s && leadAll rest

@[simp]
def leadElse : Option (List Stmt) → Bool
  | none => true
  | some body => leadAll body

end

@[simp] theorem awaitsAny_append (as bs : List Stmt) :
    awaitsAny (as ++ bs) = (awaitsAny as || awaitsAny bs) := by
  induction as with
  | nil => rfl
  | cons s rest ih => simp [awaitsAny, ih, Bool.or_assoc]

@[simp] theorem leadAll_append (as bs : List Stmt) :
    leadAll (as ++ bs) = (leadAll as && leadAll bs) := by
  induction as with
  | nil => rfl
  | cons s rest ih => simp [leadAll, ih, Bool.and_assoc]

end Stmt

/-- A line of code that waits for something. -/
def Line.Awaits (l : Line) : Prop :=
  Text.startsWith l.text "//" = false ∧ awaitWord <:+: l.text

theorem Line.awaits_of_opens {t : Text} (hopens : Text.opens isNameStart t = true)
    (h : awaitWord <:+: t) (depth : Int) : Line.Awaits ⟨depth, t⟩ :=
  ⟨not_comment_of_opens hopens, h⟩

/-- A line that gives a target a value waits if one of them does. -/
theorem Line.awaits_assignment {target e : Expr} (h : target.leads = true)
    (hs : (target.awaits || e.awaits) = true) (mark : Text) (depth : Int) :
    Line.Awaits ⟨depth, target.render 0 ++ mark ++ e.render 0 ++ ";"⟩ := by
  apply Line.awaits_of_opens
  · rw [Expr.render_zero, List.append_assoc, List.append_assoc]
    exact target.opens_of_leads h _
  · rcases Bool.or_eq_true_iff.mp hs with hs | hs
    · rw [List.append_assoc, List.append_assoc]
      exact (Expr.infix_render hs 0).trans (List.prefix_append _ _).isInfix
    · exact (Expr.infix_render hs 0).trans (List.infix_append _ _ _)

/-- A line that asks something waits if the expression does. -/
theorem Line.awaits_head {front back : Text} (hfront : Text.opens isNameStart front = true)
    {e : Expr} (h : e.awaits = true) (depth : Int) :
    Line.Awaits ⟨depth, front ++ e.render 0 ++ back⟩ := by
  apply Line.awaits_of_opens
  · rcases front with _ | ⟨g, rest⟩
    · cases hfront
    · cases g <;> exact hfront
  · exact (Expr.infix_render h 0).trans (List.infix_append _ _ _)

theorem Line.awaits_countHead {bound : Expr} (h : bound.awaits = true) (level depth : Int) :
    Line.Awaits ⟨depth, countHead level bound⟩ := by
  let i := Name.counter level
  let n := Name.limit level
  have hhead : countHead level bound =
      ("for (let " ++ i ++ " = 0, " ++ n ++ " = ") ++ bound.render 0
        ++ ("; " ++ i ++ " < " ++ n ++ "; " ++ i ++ "++) \x7b") := by
    simp [countHead, i, n]
  rw [hhead]
  exact Line.awaits_head rfl h depth

namespace Stmt

mutual

/-- A statement that waits has a line of code that does. -/
theorem awaiting_line {s : Stmt} (h : s.leads = true) (hs : s.awaits = true) (depth : Int) :
    ∃ l ∈ s.lines depth, l.Awaits := by
  match s with
  | .run e =>
    refine ⟨_, List.mem_cons_self, Line.awaits_of_opens ?_ ?_ depth⟩
    · rw [Expr.render_zero]
      exact e.opens_of_leads h _
    · exact (Expr.infix_render hs 0).trans (List.prefix_append _ _).isInfix
  | .set target e => exact ⟨_, List.mem_cons_self, Line.awaits_assignment h hs " = " depth⟩
  | .raise target e => exact ⟨_, List.mem_cons_self, Line.awaits_assignment h hs " += " depth⟩
  | .choose condition body other =>
    simp only [leads, Bool.and_eq_true] at h
    simp only [awaits, Bool.or_eq_true] at hs
    simp only [lines, List.mem_append, List.mem_cons]
    rcases hs with (hs | hs) | hs
    · exact ⟨_, .inl (.inl (.inl rfl)), Line.awaits_head rfl hs depth⟩
    · obtain ⟨l, hl, hwaits⟩ := awaiting_lines h.1 hs (depth + 1)
      exact ⟨l, .inl (.inl (.inr hl)), hwaits⟩
    · obtain ⟨l, hl, hwaits⟩ := awaiting_else h.2 hs depth
      exact ⟨l, .inl (.inr hl), hwaits⟩
  | .count level bound body =>
    simp only [leads] at h
    simp only [awaits, Bool.or_eq_true] at hs
    simp only [lines, List.mem_append, List.mem_cons]
    rcases hs with hs | hs
    · exact ⟨_, .inl (.inl rfl), Line.awaits_countHead hs level depth⟩
    · obtain ⟨l, hl, hwaits⟩ := awaiting_lines h hs (depth + 1)
      exact ⟨l, .inl (.inr hl), hwaits⟩
  | .loop condition body =>
    simp only [leads] at h
    simp only [awaits, Bool.or_eq_true] at hs
    simp only [lines, List.mem_append, List.mem_cons]
    rcases hs with hs | hs
    · exact ⟨_, .inl (.inl rfl), Line.awaits_head rfl hs depth⟩
    · obtain ⟨l, hl, hwaits⟩ := awaiting_lines h hs (depth + 1)
      exact ⟨l, .inl (.inr hl), hwaits⟩

theorem awaiting_lines {body : List Stmt} (h : leadAll body = true) (hs : awaitsAny body = true)
    (depth : Int) : ∃ l ∈ linesAll depth body, l.Awaits := by
  match body with
  | s :: rest =>
    simp only [leadAll, Bool.and_eq_true] at h
    simp only [awaitsAny, Bool.or_eq_true] at hs
    simp only [linesAll, List.mem_append, or_and_right, exists_or]
    exact hs.imp (awaiting_line h.1 · depth) (awaiting_lines h.2 · depth)

theorem awaiting_else {other : Option (List Stmt)} (h : leadElse other = true)
    (hs : awaitsElse other = true) (depth : Int) : ∃ l ∈ linesElse depth other, l.Awaits := by
  match other with
  | some body =>
    obtain ⟨l, hl, hwaits⟩ := awaiting_lines (by simpa [leadElse] using h)
      (by simpa [awaitsElse] using hs) (depth + 1)
    exact ⟨l, List.mem_cons_of_mem _ hl, hwaits⟩

end

end Stmt

end BlockScript
