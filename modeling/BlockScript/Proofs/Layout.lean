-- The layout of written statements. A text is read line by line with the brackets
-- that are open: a line is indented by the blocks around it, and every bracket is
-- closed in its turn. Well-formed statements are laid out so at any depth.
import BlockScript.JavaScript.Stmt
import BlockScript.Proofs.Nesting

namespace BlockScript

/-! ## Ends of lines -/

/-- What is taken for the end of a line: the newline, and possibly more of what is one in code. -/
structure LineEnds where
  ends : Glyph → Bool
  newline : ends (.char '\n') = true
  inCode : ∀ g, ends g = true → g.endsLine = true

/-- Only the newline ends a line. -/
def LineEnds.newlineOnly : LineEnds where
  ends g := g = .char '\n'
  newline := rfl
  inCode g hg := by
    rw [of_decide_eq_true hg]
    rfl

/-- All that ends a line of code does. -/
def LineEnds.all : LineEnds where
  ends := Glyph.endsLine
  newline := rfl
  inCode _ hg := hg

/-- No line ends in the text. -/
def Text.Unbroken (ends : LineEnds) (t : Text) : Prop := ∀ g ∈ t, ends.ends g = false

section Unbroken

variable {ends : LineEnds}

instance (t : Text) : Decidable (t.Unbroken ends) := inferInstanceAs (Decidable (∀ _ ∈ _, _))

@[simp] theorem Text.unbroken_append (s t : Text) :
    Text.Unbroken ends (s ++ t) ↔ s.Unbroken ends ∧ t.Unbroken ends :=
  List.forall_mem_append

theorem Text.Unbroken.noNewline {t : Text} (h : t.Unbroken ends) : t.NoNewline := by
  intro hmem
  have hend := h _ hmem
  rw [ends.newline] at hend
  cases hend

theorem Text.Unbroken.of_all {t : Text} (h : t.Unbroken .all) : t.Unbroken ends := by
  intro g hg
  by_contra hend
  have hcode : g.endsLine = true := ends.inCode g ((Bool.not_eq_false _).mp hend)
  rw [show g.endsLine = false from h g hg] at hcode
  cases hcode

end Unbroken

/-! ## Reading lines -/

/-- The lexemes of a line behind its indentation. A comment has none, and it goes on to the end of
the line, so no line may end in it. -/
def codeLexemes? (ends : LineEnds) (code : Text) : Option (List Lexeme) :=
  if Text.startsWith code "//" then
    if code.Unbroken ends then some [] else none
  else lexemes? code

/-- How many blocks are open among the brackets. -/
def blocksOpen (opened : List Mark) : Nat := opened.count .openBrace

/-- The brackets around a line. A line that starts with a closing brace stands outside of the block
that it closes. -/
def around (opened : List Mark) (code : Text) : List Mark :=
  if Text.opens (· == '\x7d') code then opened.tail else opened

/-- The brackets that are open after a line. The line starts with as many spaces as the blocks
around it ask for and goes on with something else. A comment opens and closes nothing. -/
def readLine? (ends : LineEnds) (width : Nat) (opened : List Mark) (line : Text) :
    Option (List Mark) :=
  let code := line.dropWhile (· = .char ' ')
  if code.isEmpty || line.length ≠ width * blocksOpen (around opened code) + code.length then none
  else (codeLexemes? ends code).bind (nest opened)

def readLines? (ends : LineEnds) (width : Nat) (opened : List Mark) (lines : List Text) :
    Option (List Mark) :=
  lines.foldlM (readLine? ends width) opened

/-- Lines that each end with a newline, in which every bracket is closed in its turn and every line
is indented by the blocks around it. -/
def WellLaid (ends : LineEnds) (width : Nat) (t : Text) : Prop :=
  ∃ lines : List Text, t = lines.flatMap (fun l => l ++ Text.ofString "\n") ∧
    (∀ l ∈ lines, l.NoNewline) ∧ readLines? ends width [] lines = some []

theorem blocksOpen_block (opened : List Mark) :
    (blocksOpen (.openBrace :: opened) : Int) = blocksOpen opened + 1 := by
  simp [blocksOpen]

theorem dropWhile_spaces {c : Char} (hc : c ≠ ' ') (n : Nat) (rest : Text) :
    (Text.spaces n ++ .char c :: rest).dropWhile (· = .char ' ') = .char c :: rest := by
  induction n with
  | zero => simp [Text.spaces, hc]
  | succ n ih => simpa [Text.spaces, List.replicate_succ] using ih

/-- A line with the right indentation is read as what follows the indentation. -/
theorem readLine_indented (ends : LineEnds) {opened : List Mark} {c : Char} (hc : c ≠ ' ')
    {rest : Text} {depth : Nat}
    (hdepth : blocksOpen (around opened (.char c :: rest)) = depth) (width : Nat) :
    readLine? ends width opened (Text.spaces (width * depth) ++ .char c :: rest) =
      (codeLexemes? ends (.char c :: rest)).bind (nest opened) := by
  unfold readLine?
  simp only [dropWhile_spaces hc, hdepth]
  simp [Text.spaces]

/-! ## Lines between brackets -/

/-- A line as it is shown, without the newline at its end. -/
def Line.shown (width : Nat) (l : Line) : Text := Text.spaces (width * l.depth.toNat) ++ l.text

/-- The lines of a text, each with the newline at its end. -/
theorem renderLines_eq (width : Nat) (ls : List Line) :
    renderLines width ls = (ls.map (Line.shown width)).flatMap (· ++ Text.ofString "\n") := by
  rw [renderLines, List.flatMap_map]
  rfl

theorem Line.noNewline_shown {l : Line} (h : l.text.NoNewline) (width : Nat) :
    (l.shown width).NoNewline := by
  have hspaces : (Text.spaces (width * l.depth.toNat)).NoNewline := by
    simp [Text.NoNewline, Text.spaces]
  simpa [Line.shown, hspaces] using h

/-- The lines are well laid between the brackets `opened` before them and `opened'` after them. -/
structure Lays (ends : LineEnds) (width : Nat) (opened : List Mark) (ls : List Line)
    (opened' : List Mark) : Prop where
  noNewline : ∀ l ∈ ls, l.text.NoNewline
  reads : readLines? ends width opened (ls.map (Line.shown width)) = some opened'

section Lays

variable {ends : LineEnds} {width : Nat} {opened opened' opened'' : List Mark}

theorem lays_nil : Lays ends width opened [] opened := ⟨by simp, rfl⟩

theorem lays_append {ls ls' : List Line} (h : Lays ends width opened ls opened')
    (h' : Lays ends width opened' ls' opened'') : Lays ends width opened (ls ++ ls') opened'' := by
  refine ⟨List.forall_mem_append.mpr ⟨h.noNewline, h'.noNewline⟩, ?_⟩
  have hreads : List.foldlM (readLine? ends width) opened (ls.map (Line.shown width))
      = some opened' := h.reads
  rw [readLines?, List.map_append, List.foldlM_append, hreads]
  exact h'.reads

theorem lays_line {l : Line} (hnewline : l.text.NoNewline)
    (h : readLine? ends width opened (l.shown width) = some opened') :
    Lays ends width opened [l] opened' := by
  refine ⟨by simpa using hnewline, ?_⟩
  simp [readLines?, h]

theorem codeLexemes_comment {t : Text} (h : t.Unbroken ends) :
    codeLexemes? ends ("// " ++ t) = some [] := by
  have hmark : (Text.ofString "// ").Unbroken ends := .of_all (by decide)
  have hcomment : Text.startsWith ("// " ++ t) "//" = true := rfl
  unfold codeLexemes?
  rw [if_pos hcomment, if_pos (by simp [hmark, h])]

theorem lays_comment {t : Text} (h : t.Unbroken ends) :
    Lays ends width opened [⟨blocksOpen opened, "// " ++ t⟩] opened := by
  refine lays_line (by simpa using h.noNewline) ?_
  have hdepth : blocksOpen (around opened (.char '/' :: ("/ " ++ t))) = blocksOpen opened := rfl
  have hread : codeLexemes? ends (.char '/' :: ("/ " ++ t)) = some [] := codeLexemes_comment h
  refine (readLine_indented ends (by decide) hdepth width).trans ?_
  rw [hread]
  rfl

theorem not_comment_of_opens {t : Text} (h : Text.opens isNameStart t = true) :
    Text.startsWith t "//" = false := by
  rcases t with _ | ⟨c | n, rest⟩
  · rfl
  · have hc : isNameStart c = true := h
    have hslash : '/' ≠ c := (ne_of_class hc (by decide)).symm
    simp [Text.startsWith, Text.after?, Text.ofString, hslash]
  · rfl

theorem codeLexemes_code {t : Text} (h : Text.startsWith t "//" = false) :
    codeLexemes? ends t = lexemes? t := by
  unfold codeLexemes?
  rw [if_neg (Bool.eq_false_iff.mp h)]

/-- A line of code that starts with a word. -/
theorem lays_code {t : Text} {ts : List Lexeme} (hstart : Text.opens isNameStart t = true)
    (hnewline : t.NoNewline) (hspells : Spells t ts []) (hnest : nest opened ts = some opened') :
    Lays ends width opened [⟨blocksOpen opened, t⟩] opened' := by
  rcases t with _ | ⟨c | n, rest⟩
  · cases hstart
  · have hc : isNameStart c = true := hstart
    have hbrace : c ≠ '\x7d' := ne_of_class hc (by decide)
    refine lays_line hnewline ?_
    have hread : lexemes? (.char c :: rest) = some ts := by
      simpa [Spells, lexemes_nil] using hspells
    have hdepth : blocksOpen (around opened (.char c :: rest)) = blocksOpen opened := by
      simp [around, Text.opens, hbrace]
    refine (readLine_indented ends (ne_of_class hc (by decide)) hdepth width).trans ?_
    rw [codeLexemes_code (not_comment_of_opens hstart), hread, Option.bind_some, hnest]
  · cases hstart

/-- A line of code that starts by closing a block. -/
theorem lays_close {rest : Text} {ts : List Lexeme} (hnewline : rest.NoNewline)
    (hspells : Spells rest ts []) (hnest : nest opened ts = some opened') :
    Lays ends width (.openBrace :: opened) [⟨blocksOpen opened, "\x7d" ++ rest⟩] opened' := by
  refine lays_line (by simpa using hnewline) ?_
  have hread : lexemes? ("\x7d" ++ rest) = some (.mark .closeBrace :: ts) := by
    have hall :=
      spells_append (spells_bracket (s := "\x7d") (m := .closeBrace) (by decide) _) hspells
    simpa [Spells, lexemes_nil] using hall
  have hline := readLine_indented ends (c := '\x7d') (by decide)
    (rfl : blocksOpen (around (.openBrace :: opened) (.char '\x7d' :: rest)) = blocksOpen opened)
    width
  refine hline.trans ?_
  have hread : codeLexemes? ends (.char '\x7d' :: rest) = some (.mark .closeBrace :: ts) := hread
  rw [hread, Option.bind_some, nest_cons, nestOne_close rfl, Option.bind_some, hnest]

theorem wellLaid_of_lays {ls : List Line} (h : Lays ends width [] ls []) :
    WellLaid ends width (renderLines width ls) := by
  refine ⟨ls.map (Line.shown width), renderLines_eq width ls, ?_, h.reads⟩
  intro t ht
  obtain ⟨l, hl, rfl⟩ := List.mem_map.mp ht
  exact Line.noNewline_shown (h.noNewline l hl) width

end Lays

/-! ## Pieces of code -/

section Pieces

variable {rest : Text}

theorem spells_semicolon (rest : Text) : Spells ";" [.mark .other] rest :=
  spells_lexeme rfl (by decide) (by decide)

/-- A mark between two spaces that sets, adds, compares or leads on to a body. -/
theorem spells_between {s : String} (h : s ∈ ["=", "+=", "===", "=>"]) (rest : Text) :
    Spells (" " ++ s ++ " ") [.mark .other] rest := by
  have hmark : Spells s [.mark .other] (" " ++ rest) := by
    simp only [List.mem_cons, List.not_mem_nil, or_false] at h
    rcases h with rfl | rfl | rfl | rfl <;> exact spells_lexeme rfl (by decide) (by decide)
  exact spells_append (spells_append (spells_space _) hmark) (spells_space rest)

/-- A word, and a space after it. -/
theorem spells_leading {w : Text} (h : IsWord w) (rest : Text) :
    Spells (w ++ " ") [.word w] rest :=
  spells_append (spells_word h rfl) (spells_space rest)

theorem spells_zero {rest : Text} (h : Breaks rest) :
    Spells "0" [.number (.decimal ['0'] none none)] rest :=
  spells_magnitude (m := .decimal ['0'] none none) (toDigits_proper 0) h

/-- The end of a line that opens a block. -/
theorem spells_opening : Spells ") \x7b" [.mark .closeParen, .mark .openBrace] [] := by
  have hspace := spells_append (spells_space _)
    (spells_bracket (s := "\x7b") (m := .openBrace) (by decide) [])
  exact spells_append (spells_bracket (s := ")") (m := .closeParen) (by decide) _) hspace

/-- The start of a line that asks something before a block. -/
theorem spells_asking {w : String} (h : w ∈ ["if", "while", "for"]) (rest : Text) :
    Spells (Text.ofString w ++ " (") [.word w, .mark .openParen] rest := by
  have hword : IsWord w := by
    simp only [List.mem_cons, List.not_mem_nil, or_false] at h
    rcases h with rfl | rfl | rfl <;> decide
  have hopen := spells_append (spells_space _)
    (spells_bracket (s := "(") (m := .openParen) (by decide) rest)
  exact spells_append (spells_word hword rfl) hopen

/-- The lexemes of a variable that is named for a level: `front`, and the level behind it. Below
zero this reads as a difference. -/
def leveledLexemes (front : Text) : Int → List Lexeme
  | .ofNat n => [.word (front ++ Text.ofNat n)]
  | .negSucc n =>
    [.word front, .mark (.operator .minus), .number (.decimal (Nat.toDigits 10 (n + 1)) none none)]

theorem isWord_numbered {front : Text} (h : IsWord front) (n : Nat) :
    IsWord (front ++ Text.ofNat n) := by
  obtain ⟨c, cs, rfl, hc, hcs⟩ := h
  refine ⟨c, cs ++ Nat.toDigits 10 n, by simp [Text.ofNat, Text.ofChars], hc, ?_⟩
  exact List.forall_mem_append.mpr ⟨hcs, fun d hd => isNamePart_of_isDigit (isDigit_toDigits d hd)⟩

theorem spells_leveled {front : Text} (h : IsWord front) (level : Int) {rest : Text}
    (hr : Breaks rest) : Spells (front ++ Text.ofInt level) (leveledLexemes front level) rest := by
  cases level with
  | ofNat n => exact spells_word (isWord_numbered h n) hr.1
  | negSucc n =>
    have hneg : decide (Int.negSucc n < 0) = true := by simp [Int.negSucc_lt_zero]
    have hlevel := spells_ofInt (.negSucc n) hr
    rw [hneg] at hlevel
    exact spells_append (spells_word h rfl) hlevel

theorem balanced_leveled (front : Text) (level : Int) : Balanced (leveledLexemes front level) := by
  cases level with
  | ofNat n => exact balanced_cons (fun _ => rfl) balanced_nil
  | negSucc n =>
    exact balanced_cons (fun _ => rfl) (balanced_cons (nestOne_other rfl rfl)
      (balanced_cons (fun _ => rfl) balanced_nil))

/-- The start of a variable's declaration. -/
theorem spells_let {w : Text} (h : IsWord w) (rest : Text) :
    Spells ("let " ++ w ++ " = ") [.word "let", .word w, .mark .other] rest := by
  have hlet : Spells "let " [.word "let"] (w ++ (" = " ++ rest)) :=
    spells_leading (w := "let") (by decide) _
  have hset : Spells " = " [.mark .other] rest := spells_between (s := "=") (by decide) rest
  exact spells_append (spells_append hlet (spells_word h rfl)) hset

end Pieces

/-- The lexemes of the head of a counted loop: two variables, a comparison of them and a step of the
first. -/
def countLexemes (level : Int) (bound : Expr) : List Lexeme :=
  let i := leveledLexemes "_i" level
  let n := leveledLexemes "_n" level
  [.word "for", .mark .openParen, .word "let"] ++ i
    ++ [.mark .other, .number (.decimal ['0'] none none), .mark .comma] ++ n ++ [.mark .other]
    ++ bound.fitLexemes bound.bodyLexemes 0 ++ [.mark .other] ++ i ++ [.mark (.operator .less)] ++ n
    ++ [.mark .other] ++ i ++ [.mark .other, .mark .closeParen, .mark .openBrace]

theorem spells_countHead (level : Int) {bound : Expr} (hbound : bound.WellFormed) :
    Spells (countHead level bound) (countLexemes level bound) [] := by
  have hi {rest : Text} (hr : Breaks rest) :
      Spells (Name.counter level) (leveledLexemes "_i" level) rest :=
    spells_leveled (by decide) level hr
  have hn {rest : Text} (hr : Breaks rest) :
      Spells (Name.limit level) (leveledLexemes "_n" level) rest :=
    spells_leveled (by decide) level hr
  have hlet (rest : Text) : Spells "let " [.word "let"] rest :=
    spells_leading (w := "let") (by decide) rest
  have hset (rest : Text) : Spells " = " [.mark .other] rest :=
    spells_between (s := "=") (by decide) rest
  have hzero (rest : Text) : Spells "0, " [.number (.decimal ['0'] none none), .mark .comma] rest :=
    spells_append (spells_zero ⟨rfl, rfl⟩) (spells_separator rest)
  have hend (rest : Text) : Spells "; " [.mark .other] rest :=
    spells_append (spells_semicolon _) (spells_space rest)
  have hplus (rest : Text) : Spells "++" [.mark .other] rest :=
    spells_lexeme rfl (by decide) (by decide)
  have hstep := spells_append (hi ⟨rfl, rfl⟩) (spells_append (hplus _) spells_opening)
  have hcompare := spells_append (hi ⟨rfl, rfl⟩) (spells_append (spells_operator .less _)
    (spells_append (hn ⟨rfl, rfl⟩) (spells_append (hend _) hstep)))
  have hlimit := spells_append (hn ⟨rfl, rfl⟩) (spells_append (hset _)
    (spells_append (bound.spells_render hbound 0 ⟨rfl, rfl⟩) (spells_append (hend _) hcompare)))
  have hcounter := spells_append (hlet _) (spells_append (hi ⟨rfl, rfl⟩) (spells_append (hset _)
    (spells_append (hzero _) hlimit)))
  have hall := spells_append (spells_asking (w := "for") (by decide) _) hcounter
  unfold countHead countLexemes
  simp only [List.append_assoc] at hall ⊢
  exact hall

/-! ## Well-formed statements -/

/-- An expression that can stand as a statement: something that can be called, or a wait. -/
def Expr.isRunnable : Expr → Bool
  | .await _ => true
  | e => e.isCallee

mutual

/-- A statement of well-formed expressions, with comments that stay on their lines. -/
def Stmt.WellFormed (ends : LineEnds) : Stmt → Prop
  | .comment t => t.Unbroken ends
  | .verbatim _ => False
  | .run e => e.WellFormed ∧ e.isRunnable = true
  | .set target e | .raise target e => target.WellFormed ∧ target.isCallee = true ∧ e.WellFormed
  | .jump _ => True
  | .choose condition body other =>
    condition.WellFormed ∧ Stmt.AllWellFormed ends body ∧ Stmt.ElseWellFormed ends other
  | .count _ bound body => bound.WellFormed ∧ Stmt.AllWellFormed ends body
  | .loop condition body => condition.WellFormed ∧ Stmt.AllWellFormed ends body

def Stmt.AllWellFormed (ends : LineEnds) : List Stmt → Prop
  | [] => True
  | s :: rest => s.WellFormed ends ∧ Stmt.AllWellFormed ends rest

def Stmt.ElseWellFormed (ends : LineEnds) : Option (List Stmt) → Prop
  | none => True
  | some body => Stmt.AllWellFormed ends body

end

namespace Expr

theorem render_zero (e : Expr) : e.render 0 = e.body := by
  unfold render fit wrap
  split
  · rename_i r _
    cases r <;> rfl
  · rfl

/-- Whether the text of the expression starts with a word. -/
def leads : Expr → Bool
  | .name t => Text.opens isNameStart t
  | .member e _ | .call e _ => e.isCallee && e.leads
  | .await _ => true
  | _ => false

theorem opens_of_leads {e : Expr} (h : e.leads = true) (rest : Text) :
    Text.opens isNameStart (e.body ++ rest) = true := by
  match e with
  | .name t =>
    cases t with
    | nil => cases h
    | cons g t => cases g <;> exact h
  | .member e field =>
    simp only [leads, Bool.and_eq_true] at h
    rw [body, fit_of_isCallee h.1, List.append_assoc, List.append_assoc]
    exact opens_of_leads h.2 _
  | .call callee arguments =>
    simp only [leads, Bool.and_eq_true] at h
    simp only [body, fit_of_isCallee h.1, List.append_assoc]
    exact opens_of_leads h.2 _
  | .await e => rfl

theorem leads_of_callee {e : Expr} (h : e.WellFormed) (hcallee : e.isCallee = true) :
    e.leads = true := by
  match e with
  | .name t =>
    obtain ⟨c, cs, rfl, hc, -⟩ := h.1
    exact hc
  | .member e field => simp [leads, h.1, leads_of_callee h.2.1 h.1]
  | .call callee arguments => simp [leads, h.1, leads_of_callee h.2.1 h.1]

theorem opens_runnable {e : Expr} (h : e.WellFormed) (hrun : e.isRunnable = true) (rest : Text) :
    Text.opens isNameStart (e.render 0 ++ rest) = true := by
  rw [render_zero]
  apply opens_of_leads
  cases e with
  | await e => rfl
  | name | member | call => exact leads_of_callee h rfl
  | _ => cases hrun

end Expr

/-! ## Layout of statements -/

section Statements

variable {ends : LineEnds} {width : Nat} {opened : List Mark}

theorem lays_run {e : Expr} (h : e.WellFormed) (hrun : e.isRunnable = true) :
    Lays ends width opened [⟨blocksOpen opened, e.render 0 ++ ";"⟩] opened := by
  refine lays_code (e.opens_runnable h hrun _) ?_
    (spells_append (e.spells_render h 0 ⟨rfl, rfl⟩) (spells_semicolon [])) ?_
  · simp [e.noNewline_render h]
  · simp [e.balanced_render 0 opened, nestOne, Mark.isOpening, Mark.closed?]

theorem spells_assignment {s : String} (hs : s ∈ ["=", "+=", "===", "=>"]) {target e : Expr}
    (ht : target.WellFormed) (he : e.WellFormed) :
    Spells (target.render 0 ++ (" " ++ s ++ " ") ++ e.render 0 ++ ";")
      (target.fitLexemes target.bodyLexemes 0 ++ .mark .other ::
        (e.fitLexemes e.bodyLexemes 0 ++ [.mark .other])) [] := by
  have hvalue := spells_append (e.spells_render he 0 ⟨rfl, rfl⟩) (spells_semicolon [])
  have htarget := spells_append (spells_between hs _) hvalue
  have hspells := spells_append (target.spells_render ht 0 ⟨rfl, rfl⟩) htarget
  rwa [← List.append_assoc, ← List.append_assoc] at hspells

/-- A statement that gives a target a value. -/
theorem lays_assignment {s : String} (hs : s ∈ ["=", "+=", "===", "=>"]) {target e : Expr}
    (ht : target.WellFormed) (hcallee : target.isCallee = true) (he : e.WellFormed) :
    Lays ends width opened
      [⟨blocksOpen opened, target.render 0 ++ (" " ++ s ++ " ") ++ e.render 0 ++ ";"⟩] opened := by
  have hrun : target.isRunnable = true := by cases target <;> first | rfl | cases hcallee
  have hmark : (Text.ofString s).NoNewline := by
    simp only [List.mem_cons, List.not_mem_nil, or_false] at hs
    rcases hs with rfl | rfl | rfl | rfl <;> decide
  refine lays_code ?_ ?_ (spells_assignment hs ht he) ?_
  · simp only [List.append_assoc]
    exact target.opens_runnable ht hrun _
  · simp [target.noNewline_render ht, e.noNewline_render he, hmark]
  · simp [target.balanced_render 0 opened, e.balanced_render 0 opened, nestOne, Mark.isOpening,
      Mark.closed?]

theorem spells_question {w : String} (hw : w ∈ ["if", "while", "for"]) {t : Text}
    {ts : List Lexeme} (hspells : ∀ rest, Breaks rest → Spells t ts rest) :
    Spells (Text.ofString w ++ " (" ++ t ++ ") \x7b")
      (.word w :: .mark .openParen :: (ts ++ [.mark .closeParen, .mark .openBrace])) [] :=
  spells_append (spells_append (spells_asking hw _) (hspells _ ⟨rfl, rfl⟩)) spells_opening

/-- A line that asks a condition and opens a block. -/
theorem lays_asking {w : String} (hw : w ∈ ["if", "while", "for"]) {t : Text} {ts : List Lexeme}
    (hnewline : t.NoNewline) (hspells : ∀ rest, Breaks rest → Spells t ts rest)
    (hbalanced : Balanced ts) :
    Lays ends width opened [⟨blocksOpen opened, Text.ofString w ++ " (" ++ t ++ ") \x7b"⟩]
      (.openBrace :: opened) := by
  have hword : (Text.ofString w).NoNewline ∧
      ∀ rest, Text.opens isNameStart (Text.ofString w ++ rest) = true := by
    simp only [List.mem_cons, List.not_mem_nil, or_false] at hw
    rcases hw with rfl | rfl | rfl <;> exact ⟨by decide, fun _ => rfl⟩
  refine lays_code ?_ ?_ (spells_question hw hspells) ?_
  · simp only [List.append_assoc]
    exact hword.2 _
  · simp [hword.1, hnewline]
  · simp [hbalanced (.openParen :: opened), nestOne, Mark.isOpening, Mark.closed?]

theorem lays_condition {w : String} (hw : w ∈ ["if", "while", "for"]) {e : Expr} (h : e.WellFormed)
    (opened : List Mark) :
    Lays ends width opened [⟨blocksOpen opened, Text.ofString w ++ " (" ++ e.render 0 ++ ") \x7b"⟩]
      (.openBrace :: opened) :=
  lays_asking hw (e.noNewline_render h 0) (fun _ hr => e.spells_render h 0 hr) (e.balanced_render 0)

theorem lays_jump (j : Jump) :
    Lays ends width opened [⟨blocksOpen opened, j.word ++ ";"⟩] opened := by
  have hword : IsWord j.word := by cases j <;> decide
  have hstart : Text.opens isNameStart (j.word ++ ";") = true := by cases j <;> decide
  have hspells := spells_append (spells_word hword rfl) (spells_semicolon [])
  refine lays_code hstart (by simp [noNewline_word hword]) hspells ?_
  simp [nestOne, Mark.isOpening, Mark.closed?]

/-- The head of a counted loop opens a block. -/
theorem lays_count (level : Int) {bound : Expr} (hbound : bound.WellFormed) :
    Lays ends width opened [⟨blocksOpen opened, countHead level bound⟩] (.openBrace :: opened) := by
  refine lays_code rfl ?_ (spells_countHead level hbound) ?_
  · simp [countHead, Name.counter, Name.limit, noNewline_ofInt, bound.noNewline_render hbound]
  · have hi := balanced_leveled "_i" level (.openParen :: opened)
    have hn := balanced_leveled "_n" level (.openParen :: opened)
    simp [countLexemes, hi, hn, bound.balanced_render 0 (.openParen :: opened), nestOne,
      Mark.isOpening, Mark.closed?]

/-- The end of a block. -/
theorem lays_end : Lays ends width (.openBrace :: opened) [⟨blocksOpen opened, "\x7d"⟩] opened :=
  lays_close Text.noNewline_nil (spells_nil []) rfl

/-- The line between the two branches of a choice. -/
theorem lays_else :
    Lays ends width (.openBrace :: opened) [⟨blocksOpen opened, "\x7d else \x7b"⟩]
      (.openBrace :: opened) := by
  have hopen := spells_bracket (s := "\x7b") (m := .openBrace) (by decide) []
  have hword := spells_append (spells_leading (w := "else") (by decide) _) hopen
  have hspells := spells_append (spells_space _) hword
  exact lays_close (by decide) hspells rfl

end Statements

namespace Stmt

variable {ends : LineEnds}

mutual

/-- A statement leaves the brackets around it as they are. -/
theorem lays (width : Nat) {s : Stmt} (h : s.WellFormed ends) (opened : List Mark) :
    Lays ends width opened (s.lines (blocksOpen opened)) opened := by
  match s with
  | .comment t => exact lays_comment h
  | .run e => exact lays_run h.1 h.2
  | .set target e => exact lays_assignment (s := "=") (by decide) h.1 h.2.1 h.2.2
  | .raise target e => exact lays_assignment (s := "+=") (by decide) h.1 h.2.1 h.2.2
  | .jump j => exact lays_jump j
  | .choose condition body other =>
    have hhead : Lays ends width _ _ _ := lays_condition (w := "if") (by decide) h.1 opened
    have hbody := lays_all width h.2.1 (.openBrace :: opened)
    have hother := lays_other width h.2.2 opened
    rw [blocksOpen_block] at hbody
    exact lays_append (lays_append (lays_append hhead hbody) hother) lays_end
  | .count level bound body =>
    have hbody := lays_all width h.2 (.openBrace :: opened)
    rw [blocksOpen_block] at hbody
    exact lays_append (lays_append (lays_count level h.1) hbody) lays_end
  | .loop condition body =>
    have hhead : Lays ends width _ _ _ := lays_condition (w := "while") (by decide) h.1 opened
    have hbody := lays_all width h.2 (.openBrace :: opened)
    rw [blocksOpen_block] at hbody
    exact lays_append (lays_append hhead hbody) lays_end

theorem lays_all (width : Nat) {body : List Stmt} (h : Stmt.AllWellFormed ends body)
    (opened : List Mark) :
    Lays ends width opened (Stmt.linesAll (blocksOpen opened) body) opened := by
  match body with
  | [] => exact lays_nil
  | s :: rest => exact lays_append (lays width h.1 opened) (lays_all width h.2 opened)

theorem lays_other (width : Nat) {other : Option (List Stmt)}
    (h : Stmt.ElseWellFormed ends other) (opened : List Mark) :
    Lays ends width (.openBrace :: opened) (Stmt.linesElse (blocksOpen opened) other)
      (.openBrace :: opened) := by
  match other with
  | none => exact lays_nil
  | some body =>
    have h : Stmt.AllWellFormed ends body := h
    have hbody := lays_all width h (.openBrace :: opened)
    rw [blocksOpen_block] at hbody
    exact lays_append lays_else hbody

end

mutual

/-- The depth of a line decides its indentation only. -/
theorem texts_lines (depth depth' : Int) : (s : Stmt) →
    (s.lines depth).map Line.text = (s.lines depth').map Line.text
  | .comment _ | .verbatim _ | .run _ | .set _ _ | .raise _ _ | .jump _ => rfl
  | .choose condition body other => by
    simp [lines, texts_linesAll (depth + 1) (depth' + 1) body, texts_linesElse depth depth' other]
  | .count level bound body => by simp [lines, texts_linesAll (depth + 1) (depth' + 1) body]
  | .loop condition body => by simp [lines, texts_linesAll (depth + 1) (depth' + 1) body]

theorem texts_linesAll (depth depth' : Int) : (body : List Stmt) →
    (linesAll depth body).map Line.text = (linesAll depth' body).map Line.text
  | [] => rfl
  | s :: rest => by
    simp [linesAll, texts_lines depth depth' s, texts_linesAll depth depth' rest]

theorem texts_linesElse (depth depth' : Int) : (other : Option (List Stmt)) →
    (linesElse depth other).map Line.text = (linesElse depth' other).map Line.text
  | none => rfl
  | some body => by simp [linesElse, texts_linesAll (depth + 1) (depth' + 1) body]

end

/-- Well-formed statements have lines that are not broken, at any depth. -/
theorem noNewline_lines {body : List Stmt} (h : AllWellFormed ends body) (depth : Int) :
    ∀ l ∈ linesAll depth body, l.text.NoNewline := by
  have hlaid := (lays_all 0 h []).noNewline
  intro l hl
  have htext := List.mem_map_of_mem (f := Line.text) hl
  rw [texts_linesAll depth (blocksOpen [])] at htext
  obtain ⟨l', hl', heq⟩ := List.mem_map.mp htext
  exact heq ▸ hlaid l' hl'

end Stmt

end BlockScript
