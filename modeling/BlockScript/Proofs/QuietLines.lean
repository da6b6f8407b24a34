-- Quiet lines. A line of code that is no return of a value does not look like one,
-- and neither does what stands inside of it: a text or a comment stays on its line,
-- and behind a newline at the end of a name the line goes on with the code.
import BlockScript.Proofs.LocalVariables

namespace BlockScript

/-! ## Starts of lines -/

/-- The suffixes of a text that start a line with the return of a value. -/
def valuedReturns (t : Text) : List Text := (t :: lineStarts t).filter startsValuedReturn

namespace Text

/-- The first glyph that is no blank is there, and is not the first of the word `return`. -/
def startsCalm (t : Text) : Bool :=
  match t.dropWhile Glyph.isBlank with
  | g :: _ => g ≠ .char 'r'
  | [] => false

/-- No line that starts inside of the text, before `rest`, starts with the word `return`. -/
def Calm (t rest : Text) : Prop := ∀ s ∈ lineStarts t, startsCalm (s ++ rest) = true

/-- The text is calm before every rest that starts calm. -/
def CalmInCode (t : Text) : Prop := ∀ rest : Text, rest.startsCalm = true → t.Calm rest

/-- The text starts with a glyph that is neither a blank nor a semicolon. -/
def startsCode : Text → Bool
  | g :: _ => !g.isBlank && g ≠ .char ';'
  | [] => false

end Text

theorem lineStarts_append (s t : Text) :
    lineStarts (s ++ t) = (lineStarts s).map (· ++ t) ++ lineStarts t := by
  fun_induction lineStarts s with
  | case1 => rfl
  | case2 rest ih => simp [lineStarts, ih]
  | case3 g rest hg ih =>
    rw [List.cons_append, lineStarts, ih]
    exact hg

theorem lineStarts_of_noNewline {t : Text} (h : t.NoNewline) : lineStarts t = [] := by
  fun_induction lineStarts t with
  | case1 => rfl
  | case2 rest => exact absurd List.mem_cons_self h
  | case3 g rest _ ih => exact ih fun hmem => h (List.mem_cons_of_mem _ hmem)

theorem dropBlanks_spaces (n : Nat) (t : Text) :
    (Text.spaces n ++ t).dropWhile Glyph.isBlank = t.dropWhile Glyph.isBlank :=
  List.dropWhile_append_of_pos fun g hg => by
    rw [List.eq_of_mem_replicate hg]
    rfl

theorem startsValuedReturn_spaces (n : Nat) (t : Text) :
    startsValuedReturn (Text.spaces n ++ t) = startsValuedReturn t := by
  unfold startsValuedReturn
  rw [dropBlanks_spaces]

theorem startsCalm_append {t : Text} (h : t.startsCalm = true) (rest : Text) :
    Text.startsCalm (t ++ rest) = true := by
  unfold Text.startsCalm at h ⊢
  rw [List.dropWhile_append]
  cases ht : t.dropWhile Glyph.isBlank with
  | nil => simp [ht] at h
  | cons g more => simpa [ht] using h

theorem not_valued_of_startsCalm {t : Text} (h : t.startsCalm = true) :
    startsValuedReturn t = false := by
  unfold Text.startsCalm at h
  unfold startsValuedReturn
  cases ht : t.dropWhile Glyph.isBlank with
  | nil => rfl
  | cons g rest =>
    rw [ht] at h
    have hg : Glyph.char 'r' ≠ g := fun heq => by simp [← heq] at h
    have hafter : Text.after? "return" (g :: rest) = none := if_neg hg
    rw [hafter]

theorem startsCode_append {t : Text} (h : t.startsCode = true) (rest : Text) :
    Text.startsCode (t ++ rest) = true := by
  cases t with
  | nil => cases h
  | cons g more => exact h

/-- The word, a blank and some code return a value. -/
theorem valued_of_startsCode {t : Text} (h : t.startsCode = true) :
    startsValuedReturn ("return " ++ t) = true := by
  cases t with
  | nil => cases h
  | cons g rest =>
    simp only [Text.startsCode, Bool.and_eq_true, Bool.not_eq_true', decide_eq_true_eq] at h
    have hafter : Text.after? "return"
        ((Text.ofString "return " ++ g :: rest).dropWhile Glyph.isBlank)
        = some (.char ' ' :: g :: rest) := rfl
    have hdrop : (g :: rest).dropWhile Glyph.isBlank = g :: rest :=
      List.dropWhile_cons_of_neg (by simp [h.1])
    rw [startsValuedReturn, hafter]
    simp only [hdrop]
    simpa using ⟨rfl, h.2⟩

section Calm

variable {s t rest : Text}

@[simp] theorem calm_append :
    Text.Calm (s ++ t) rest ↔ Text.Calm s (t ++ rest) ∧ Text.Calm t rest := by
  simp [Text.Calm, lineStarts_append, or_imp, forall_and]

theorem calm_of_noNewline (h : t.NoNewline) : Text.Calm t rest := by
  simp [Text.Calm, lineStarts_of_noNewline h]

/-- A newline at the end of a name leaves the start of a line to what follows the name. -/
theorem calm_name (h : t.dropFinalNewline.NoNewline) : t.CalmInCode := by
  intro rest hrest
  rcases eq_dropFinalNewline t with heq | heq <;> rw [heq]
  · exact calm_of_noNewline h
  · refine calm_append.mpr ⟨calm_of_noNewline h, ?_⟩
    -- one line starts inside of the name: behind its newline, with the rest
    intro s hs
    cases List.mem_singleton.mp hs
    exact hrest

theorem calm_listed {parts : List Text} (h : ∀ t ∈ parts, t.CalmInCode) :
    (Text.joined ", " parts).CalmInCode := by
  intro rest hrest
  induction parts with
  | nil => exact calm_of_noNewline Text.noNewline_nil
  | cons t more ih =>
    obtain ⟨ht, hmore⟩ := List.forall_mem_cons.mp h
    cases more with
    | nil => exact ht rest hrest
    | cons u more =>
      simp only [Text.joined, calm_append, List.append_assoc]
      exact ⟨ht _ rfl, calm_of_noNewline (by simp), ih hmore⟩

end Calm

/-! ## Expressions -/

theorem startsCode_of_isNamePart {c : Char} (h : isNamePart c = true) (t : Text) :
    Text.startsCode (.char c :: t) = true := by
  have hcode : 33 ≤ c.toNat ∧ c.toNat ≤ 126 := by
    simp only [isNamePart, Char.isAlphanum, Char.isDigit, isAlpha_iff, Bool.or_eq_true,
      Bool.and_eq_true, decide_eq_true_eq, beq_iff_eq, UInt32.le_iff_toNat_le] at h
    change ((((65 ≤ c.toNat ∧ c.toNat ≤ 90) ∨ (97 ≤ c.toNat ∧ c.toNat ≤ 122)) ∨
      (48 ≤ c.toNat ∧ c.toNat ≤ 57)) ∨ c = '_') ∨ c = '$' at h
    rcases h with (h | rfl) | rfl
    · omega
    · decide
    · decide
  have hblank : Glyph.isBlank (.char c) = false := by
    simp only [Glyph.isBlank, blankRanges, Glyph.code, List.any_cons, List.any_nil]
    grind
  have hne : c ≠ ';' := ne_of_class h (by decide)
  simp [Text.startsCode, hblank, hne]

theorem startsCode_word {w : Text} (h : IsWord w) : w.startsCode = true := by
  obtain ⟨c, cs, rfl, hc, -⟩ := h
  exact startsCode_of_isNamePart (isNamePart_of_isNameStart hc) _

theorem startsCode_signed {m : Magnitude} (h : m.Proper) (negative : Bool) :
    Text.startsCode (signText negative ++ Text.ofChars m.chars) = true := by
  cases negative with
  | true => rfl
  | false =>
    rcases chars_start h with ⟨c, cs, hm, hc⟩ | ⟨c, cs, hm, -⟩ <;> rw [hm]
    · exact startsCode_of_isNamePart (by simp [isNamePart, Char.isAlphanum, hc]) _
    · rfl

theorem startsCode_line (v : Json) : v.line.startsCode = true := by
  cases v with
  | int n =>
    rw [Json.line, ofInt_eq]
    have h := startsCode_signed (toDigits_proper n.natAbs) (n < 0)
    rwa [chars_decimal, fractionChars, Option.getD_none, List.append_nil, List.append_nil] at h
  | double d =>
    cases d with
    | finite negative m e =>
      rw [Json.line, Double.documented_finite]
      exact startsCode_signed (Double.finiteMagnitude_proper m e) negative
    | nan => rfl
    | infinity negative => cases negative <;> rfl
  | bool b => cases b <;> rfl
  | null | str | arr | obj => rfl

/-- Up to a newline at its end, the text is a word. -/
def IsName (t : Text) : Prop := IsWord t.dropFinalNewline

instance (t : Text) : Decidable (IsName t) := inferInstanceAs (Decidable (IsWord _))

theorem vocabulary_isName : Vocabulary IsName where
  word := by decide
  paramName _ _ _ h := isWord_dropFinalNewline (by decide) h
  localName _ _ h := isWord_dropFinalNewline (by decide) h
  functionName _ _ _ h := isWord_dropFinalNewline (by decide) h

theorem IsName.startsCode {t : Text} (h : IsName t) : t.startsCode = true := by
  rcases eq_dropFinalNewline t with heq | heq <;> rw [heq]
  · exact startsCode_word h
  · exact startsCode_append (startsCode_word h) _

theorem IsName.calm {t : Text} (h : IsName t) : t.CalmInCode := calm_name (noNewline_word h)

namespace Expr

theorem startsCode_fit {e : Expr} {t : Text} (h : t.startsCode = true) (place : Int) :
    (e.fit t place).startsCode = true := by
  rcases fit_cases e t place with heq | heq <;> rw [heq]
  · rfl
  · exact h

theorem startsCode_body {e : Expr} (h : e.Over IsName) : e.body.startsCode = true := by
  match e with
  | .numeral n =>
    rw [body, numeral_text_eq]
    exact startsCode_signed h n.negative
  | .data v => exact startsCode_line v
  | .name w => exact IsName.startsCode h
  | .member e field =>
    rw [body, List.append_assoc]
    exact startsCode_append (startsCode_fit (startsCode_body h.1) _) _
  | .call callee arguments =>
    simp only [body, List.append_assoc]
    exact startsCode_append (startsCode_fit (startsCode_body h.1) _) _
  | .binary op left right =>
    simp only [body, List.append_assoc]
    exact startsCode_append (startsCode_fit (startsCode_body h.1) _) _
  | .plain _ | .zero | .text _ | .not _ | .await _ => rfl

theorem startsCalm_body {e : Expr} (h : e.isOrder = true) : e.body.startsCalm = true := by
  have hopens : Text.opens (fun c => !Glyph.isBlank (.char c) && c ≠ 'r') e.body = true :=
    opens_order (by decide) h
  match hbody : e.body with
  | .char c :: rest =>
    rw [hbody] at hopens
    simp only [Text.opens, Bool.and_eq_true, Bool.not_eq_true', decide_eq_true_eq] at hopens
    simp [Text.startsCalm, hopens]
  | .half n :: rest =>
    rw [hbody] at hopens
    cases hopens
  | [] =>
    rw [hbody] at hopens
    cases hopens

theorem calm_fit {e : Expr} {t : Text} (h : t.CalmInCode) (place : Int) :
    (e.fit t place).CalmInCode := by
  intro rest hrest
  rcases fit_cases e t place with heq | heq <;> rw [heq]
  · simp only [calm_append]
    exact ⟨⟨calm_of_noNewline (by decide), h _ rfl⟩, calm_of_noNewline (by decide)⟩
  · exact h rest hrest

theorem startsCalm_operator (op : Operator) (rest : Text) :
    Text.startsCalm (Text.ofString " " ++ (op.symbol ++ rest)) = true := by
  cases op <;> rfl

mutual

/-- No line that starts inside of an expression starts with the word `return`. -/
theorem calm_body (e : Expr) (h : e.Over IsName) : e.body.CalmInCode := by
  intro rest hrest
  match e with
  | .numeral n =>
    rw [body, numeral_text_eq]
    exact calm_of_noNewline (noNewline_signed h n.negative)
  | .data v => exact calm_of_noNewline (noNewline_line v)
  | .plain t | .text t => exact calm_of_noNewline (noNewline_quoted t)
  | .zero => exact calm_of_noNewline (by decide)
  | .name t => exact IsName.calm h rest hrest
  | .member e field =>
    simp only [body, calm_append]
    exact ⟨⟨calm_fit (calm_body e h.1) _ _ rfl, calm_of_noNewline (by decide)⟩,
      IsName.calm h.2 rest hrest⟩
  | .call callee arguments =>
    simp only [body, calm_append]
    exact ⟨⟨⟨calm_fit (calm_body callee h.1) _ _ rfl, calm_of_noNewline (by decide)⟩,
      calm_listed (calm_bodies arguments h.2) _ rfl⟩, calm_of_noNewline (by decide)⟩
  | .not e | .await e =>
    simp only [body, calm_append]
    exact ⟨calm_of_noNewline (by decide), calm_fit (calm_body e h) _ rest hrest⟩
  | .binary op left right =>
    have hop : op.symbol.NoNewline := by cases op <;> decide
    simp only [body, calm_append]
    exact ⟨⟨⟨⟨calm_fit (calm_body left h.1) _ _ (startsCalm_operator op _),
      calm_of_noNewline (by decide)⟩, calm_of_noNewline hop⟩, calm_of_noNewline (by decide)⟩,
      calm_fit (calm_body right h.2) _ rest hrest⟩

theorem calm_bodies (es : List Expr) (h : AllOver IsName es) :
    ∀ t ∈ bodies es, t.CalmInCode := by
  match es with
  | [] => simp [bodies]
  | e :: more => exact List.forall_mem_cons.mpr ⟨calm_body e h.1, calm_bodies more h.2⟩

end

end Expr

/-- An expression between two texts that stay on one line. -/
theorem calm_enclosed (start : Text) {finish : Text} {e : Expr} (h : e.Over IsName)
    (hstart : start.NoNewline) (hfinish : finish.NoNewline) {rest : Text}
    (hrest : Text.startsCalm (finish ++ rest) = true) :
    Text.Calm (start ++ e.render 0 ++ finish) rest := by
  rw [Expr.render_zero]
  simp only [calm_append]
  exact ⟨⟨calm_of_noNewline hstart, Expr.calm_body e h _ hrest⟩, calm_of_noNewline hfinish⟩

/-! ## Lines -/

/-- A line that does not return a value, and inside of which none starts that does. -/
structure Text.Quiet (t : Text) : Prop where
  calm : ∀ rest, t.Calm rest
  silent : ∀ rest, startsValuedReturn (t ++ rest) = false

theorem quiet_of_startsCalm {t : Text} (hstart : t.startsCalm = true)
    (hcalm : ∀ rest, t.Calm rest) : t.Quiet :=
  ⟨hcalm, fun rest => not_valued_of_startsCalm (startsCalm_append hstart rest)⟩

/-- Behind a line, values are returned where they are returned in the rest. -/
theorem valuedReturns_line {l : Line} (h : ∀ rest, l.text.Calm rest) (width : Nat) (rest : Text) :
    valuedReturns (l.render width ++ rest) =
      [l.render width ++ rest].filter startsValuedReturn ++ valuedReturns rest := by
  have hinside : ((lineStarts l.text).map (· ++ (Text.ofString "\n" ++ rest))).filter
      startsValuedReturn = [] := by
    rw [List.filter_eq_nil_iff, List.forall_mem_map]
    intro s hs
    simp [not_valued_of_startsCalm (h _ s hs)]
  have hspaces : lineStarts (Text.spaces (width * l.depth.toNat)) = [] :=
    lineStarts_of_noNewline fun hmem => by cases List.eq_of_mem_replicate hmem
  -- lines start inside of this one, right behind it and inside of the rest
  have hstarts : lineStarts (l.render width ++ rest) =
      (lineStarts l.text).map (· ++ (Text.ofString "\n" ++ rest)) ++ rest :: lineStarts rest := by
    rw [Line.render, List.append_assoc, lineStarts_append, lineStarts_append, hspaces]
    rfl
  rw [valuedReturns, hstarts, ← List.singleton_append, List.filter_append, List.filter_append,
    hinside]
  rfl

theorem startsValuedReturn_render (width : Nat) (l : Line) (rest : Text) :
    startsValuedReturn (l.render width ++ rest) =
      startsValuedReturn (l.text ++ (Text.ofString "\n" ++ rest)) := by
  rw [Line.render, List.append_assoc, List.append_assoc, startsValuedReturn_spaces]

/-- Quiet lines return no value. -/
theorem valuedReturns_quiet {ls : List Line} (h : ∀ l ∈ ls, l.text.Quiet) (width : Nat)
    (rest : Text) : valuedReturns (renderLines width ls ++ rest) = valuedReturns rest := by
  induction ls with
  | nil => rfl
  | cons l more ih =>
    obtain ⟨hl, hmore⟩ := List.forall_mem_cons.mp h
    rw [renderLines_cons, List.append_assoc, valuedReturns_line hl.calm, ih hmore,
      List.filter_singleton, startsValuedReturn_render, hl.silent]
    rfl

theorem returnsValue_quiet {ls : List Line} (h : ∀ l ∈ ls, l.text.Quiet) (width : Nat) :
    returnsValue (renderLines width ls) = false := by
  have hnone := valuedReturns_quiet h width []
  rw [List.append_nil] at hnone
  rw [returnsValue, List.any_eq_false]
  exact List.filter_eq_nil_iff.mp (hnone.trans rfl)

/-- Up to the end of the function, the line that returns an expression returns a value once. -/
theorem valuedReturns_return {e : Expr} (h : e.Over IsName) (width : Nat) :
    valuedReturns ((resultLine (.ok e)).render width ++ "\x7d;\n") =
      [(resultLine (.ok e)).render width ++ "\x7d;\n"] := by
  have hcalm (rest : Text) : (resultLine (.ok e)).text.Calm rest :=
    calm_enclosed _ h (by decide) (by decide) rfl
  have hvalued : startsValuedReturn ((resultLine (.ok e)).render width ++ "\x7d;\n") = true := by
    rw [startsValuedReturn_render, resultLine, Expr.render_zero, List.append_assoc,
      List.append_assoc]
    exact valued_of_startsCode (startsCode_append (Expr.startsCode_body h) _)
  rw [valuedReturns_line hcalm, List.filter_singleton, hvalued]
  rfl

/-! ## Statements -/

theorem quiet_countHead {bound : Expr} (h : bound.Over IsName) (level : Int) :
    (countHead level bound).Quiet := by
  let i := Name.counter level
  let n := Name.limit level
  have hi : i.NoNewline := by simp [i, Name.counter, noNewline_ofInt]
  have hn : n.NoNewline := by simp [n, Name.limit, noNewline_ofInt]
  have hhead : countHead level bound =
      ("for (let " ++ i ++ " = 0, " ++ n ++ " = ") ++ bound.render 0
        ++ ("; " ++ i ++ " < " ++ n ++ "; " ++ i ++ "++) \x7b") := by
    simp [countHead, i, n]
  refine quiet_of_startsCalm rfl fun rest => ?_
  rw [hhead]
  exact calm_enclosed _ h (by simp [hi, hn]) (by simp [hi, hn]) rfl

theorem quiet_assignment {target e : Expr} (htarget : target.Over IsName)
    (horder : target.isOrder = true) (he : e.Over IsName) {sign : Text} (hsign : sign.NoNewline)
    (hcalm : ∀ rest, Text.startsCalm (sign ++ rest) = true) :
    Text.Quiet (target.render 0 ++ sign ++ e.render 0 ++ ";") := by
  rw [Expr.render_zero, List.append_assoc, List.append_assoc]
  refine quiet_of_startsCalm (startsCalm_append (Expr.startsCalm_body horder) _) fun rest => ?_
  refine calm_append.mpr ⟨Expr.calm_body target htarget _ ?_, ?_⟩
  · rw [List.append_assoc]
    exact hcalm _
  · rw [← List.append_assoc]
    exact calm_enclosed _ he hsign (by decide) rfl

theorem quiet_head {start : Text} {condition : Expr} (h : condition.Over IsName)
    (hstart : start.NoNewline) (hcalm : start.startsCalm = true) :
    Text.Quiet (start ++ condition.render 0 ++ ") \x7b") := by
  refine quiet_of_startsCalm ?_ fun rest => calm_enclosed _ h hstart (by decide) rfl
  rw [List.append_assoc]
  exact startsCalm_append hcalm _

theorem quiet_fixed {t : Text} (hcalm : t.startsCalm = true) (h : t.NoNewline) : t.Quiet :=
  quiet_of_startsCalm hcalm fun _ => calm_of_noNewline h

namespace Stmt

mutual

/-- The lines of a statement over names return no value. -/
theorem quiet_lines (depth : Int) : (s : Stmt) → s.Over IsName Text.NoNewline →
    ∀ l ∈ s.lines depth, l.text.Quiet
  | .comment t, h => by
    refine List.forall_mem_singleton.mpr (quiet_fixed rfl ?_)
    simpa using h
  | .run e, h => by
    refine List.forall_mem_singleton.mpr (quiet_of_startsCalm ?_ fun rest => ?_)
    · rw [Expr.render_zero]
      exact startsCalm_append (Expr.startsCalm_body h.2) _
    · exact calm_enclosed [] h.1 (by decide) (by decide) rfl
  | .set target e, h =>
    List.forall_mem_singleton.mpr (quiet_assignment h.1.1 h.1.2 h.2 (by decide) fun _ => rfl)
  | .raise target e, h =>
    List.forall_mem_singleton.mpr (quiet_assignment h.1.1 h.1.2 h.2 (by decide) fun _ => rfl)
  | .jump j, _ => by
    refine List.forall_mem_singleton.mpr ⟨fun rest => calm_of_noNewline ?_, fun rest => ?_⟩
    · cases j <;> simp [Jump.word]
    · cases j <;> rfl
  | .choose condition body other, h => by
    simp only [lines, List.forall_mem_append, List.forall_mem_cons]
    exact ⟨⟨⟨quiet_head h.1 (by decide) rfl, quiet_linesAll (depth + 1) body h.2.1⟩,
      quiet_linesElse depth other h.2.2⟩, quiet_fixed rfl (by decide), by simp⟩
  | .count level bound body, h => by
    simp only [lines, List.forall_mem_append, List.forall_mem_cons]
    exact ⟨⟨quiet_countHead h.1 level, quiet_linesAll (depth + 1) body h.2⟩,
      quiet_fixed rfl (by decide), by simp⟩
  | .loop condition body, h => by
    simp only [lines, List.forall_mem_append, List.forall_mem_cons]
    exact ⟨⟨quiet_head h.1 (by decide) rfl, quiet_linesAll (depth + 1) body h.2⟩,
      quiet_fixed rfl (by decide), by simp⟩

theorem quiet_linesAll (depth : Int) : (body : List Stmt) → AllOver IsName Text.NoNewline body →
    ∀ l ∈ linesAll depth body, l.text.Quiet
  | [], _ => by simp [linesAll]
  | s :: rest, h =>
    List.forall_mem_append.mpr ⟨quiet_lines depth s h.1, quiet_linesAll depth rest h.2⟩

theorem quiet_linesElse (depth : Int) : (other : Option (List Stmt)) →
    ElseOver IsName Text.NoNewline other → ∀ l ∈ linesElse depth other, l.text.Quiet
  | none, _ => by simp [linesElse]
  | some body, h =>
    List.forall_mem_cons.mpr ⟨quiet_fixed (t := "\x7d else \x7b") rfl (by decide),
      quiet_linesAll (depth + 1) body h⟩

end

end Stmt

end BlockScript
