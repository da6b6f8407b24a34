-- Brackets of written expressions. Whatever a text literal holds, the lexemes of
-- an expression close every bracket that they open, in the right order, and the
-- expression is written on one line.
import BlockScript.Proofs.Meaning

namespace BlockScript

/-! ## Open brackets -/

def Mark.isOpening : Mark → Bool
  | .openParen | .openBracket | .openBrace => true
  | _ => false

/-- The bracket that a closing one closes. -/
def Mark.closed? : Mark → Option Mark
  | .closeParen => some .openParen
  | .closeBracket => some .openBracket
  | .closeBrace => some .openBrace
  | _ => none

/-- The brackets that are open after a lexeme, the innermost first. Only the innermost can be
closed. -/
def nestOne (opened : List Mark) : Lexeme → Option (List Mark)
  | .mark m =>
    if m.isOpening then some (m :: opened)
    else match m.closed? with
      | none => some opened
      | some o => if opened.head? = some o then some opened.tail else none
  | _ => some opened

def nest (opened : List Mark) (ts : List Lexeme) : Option (List Mark) := ts.foldlM nestOne opened

/-- The lexemes close just the brackets that they open. -/
def Balanced (ts : List Lexeme) : Prop := ∀ opened, nest opened ts = some opened

@[simp] theorem nest_nil (opened : List Mark) : nest opened [] = some opened := rfl

@[simp] theorem nest_cons (opened : List Mark) (t : Lexeme) (ts : List Lexeme) :
    nest opened (t :: ts) = (nestOne opened t).bind fun o => nest o ts := rfl

@[simp] theorem nest_append (opened : List Mark) (as bs : List Lexeme) :
    nest opened (as ++ bs) = (nest opened as).bind fun o => nest o bs := by
  unfold nest
  rw [List.foldlM_append]
  rfl

@[simp] theorem nestOne_word (opened : List Mark) (w : Text) :
    nestOne opened (.word w) = some opened := rfl

@[simp] theorem nestOne_number (opened : List Mark) (m : Magnitude) :
    nestOne opened (.number m) = some opened := rfl

@[simp] theorem nestOne_string (opened : List Mark) (units : List Nat) :
    nestOne opened (.string units) = some opened := rfl

theorem nestOne_open {m : Mark} (h : m.isOpening = true) (opened : List Mark) :
    nestOne opened (.mark m) = some (m :: opened) := by
  simp [nestOne, h]

theorem nestOne_close {m o : Mark} (h : m.closed? = some o) (opened : List Mark) :
    nestOne (o :: opened) (.mark m) = some opened := by
  cases m <;> cases h <;> rfl

/-- A mark that is no bracket. -/
theorem nestOne_other {m : Mark} (hopen : m.isOpening = false) (hclose : m.closed? = none)
    (opened : List Mark) : nestOne opened (.mark m) = some opened := by
  simp [nestOne, hopen, hclose]

section Balanced

variable {as bs : List Lexeme}

theorem balanced_nil : Balanced [] := fun _ => rfl

theorem balanced_append (ha : Balanced as) (hb : Balanced bs) : Balanced (as ++ bs) := by
  intro opened
  rw [nest_append, ha opened]
  exact hb opened

theorem balanced_cons {t : Lexeme} (ht : ∀ opened, nestOne opened t = some opened)
    (h : Balanced bs) : Balanced (t :: bs) := by
  intro opened
  rw [nest_cons, ht opened]
  exact h opened

theorem balanced_enclosed {m m' : Mark} (hopen : m.isOpening = true) (hclose : m'.closed? = some m)
    (h : Balanced as) : Balanced (.mark m :: (as ++ [.mark m'])) := by
  intro opened
  rw [nest_cons, nestOne_open hopen, Option.bind_some, nest_append, h, Option.bind_some, nest_cons,
    nestOne_close hclose]
  rfl

theorem balanced_separated {tss : List (List Lexeme)} (h : ∀ ts ∈ tss, Balanced ts) :
    Balanced (separated tss) := by
  induction tss with
  | nil => exact balanced_nil
  | cons ts rest ih =>
    obtain ⟨hts, hrest⟩ := List.forall_mem_cons.mp h
    cases rest with
    | nil => exact hts
    | cons us more =>
      exact balanced_append hts (balanced_cons (nestOne_other rfl rfl) (ih hrest))

theorem balanced_sign (negative : Bool) : Balanced (signLexemes negative) := by
  cases negative with
  | true => exact balanced_cons (nestOne_other rfl rfl) balanced_nil
  | false => exact balanced_nil

theorem balanced_double (d : Double) : Balanced d.lexemes := by
  cases d with
  | nan => exact balanced_cons (fun _ => rfl) balanced_nil
  | infinity negative =>
    exact balanced_append (balanced_sign negative) (balanced_cons (fun _ => rfl) balanced_nil)
  | finite negative m e =>
    exact balanced_append (balanced_sign negative) (balanced_cons (fun _ => rfl) balanced_nil)

end Balanced

mutual

theorem balanced_json : (v : Json) → Balanced v.lexemes
  | .null | .bool true | .bool false | .str _ => balanced_cons (fun _ => rfl) balanced_nil
  | .int _ => balanced_append (balanced_sign _) (balanced_cons (fun _ => rfl) balanced_nil)
  | .double d => balanced_double d
  | .arr items => balanced_enclosed rfl rfl (balanced_separated (balanced_items items))
  | .obj fields => balanced_enclosed rfl rfl (balanced_separated (balanced_fields fields))

theorem balanced_items : (items : List Json) → ∀ ts ∈ Json.lexemeItems items, Balanced ts
  | [] => by simp [Json.lexemeItems]
  | v :: rest => List.forall_mem_cons.mpr ⟨balanced_json v, balanced_items rest⟩

theorem balanced_fields :
    (fields : List (Text × Json)) → ∀ ts ∈ Json.lexemeFields fields, Balanced ts
  | [] => by simp [Json.lexemeFields]
  | (k, v) :: rest => by
    refine List.forall_mem_cons.mpr ⟨?_, balanced_fields rest⟩
    exact balanced_cons (fun _ => rfl) (balanced_cons (nestOne_other rfl rfl) (balanced_json v))

end

namespace Expr

theorem balanced_fit (e : Expr) {ts : List Lexeme} (h : Balanced ts) (place : Int) :
    Balanced (e.fitLexemes ts place) := by
  rcases fitLexemes_cases e ts place with heq | ⟨heq, -⟩ <;> rw [heq]
  · exact balanced_enclosed rfl rfl h
  · exact h

mutual

theorem balanced_body : (e : Expr) → Balanced e.bodyLexemes
  | .numeral _ => balanced_append (balanced_sign _) (balanced_cons (fun _ => rfl) balanced_nil)
  | .plain _ | .zero | .text _ | .name _ | .verbatim _ => balanced_cons (fun _ => rfl) balanced_nil
  | .data v => balanced_json v
  | .member e _ =>
    balanced_append (balanced_fit e (balanced_body e) _)
      (balanced_cons (nestOne_other rfl rfl) (balanced_cons (fun _ => rfl) balanced_nil))
  | .call callee arguments =>
    balanced_append (balanced_fit callee (balanced_body callee) _)
      (balanced_enclosed rfl rfl (balanced_separated (balanced_bodies arguments)))
  | .not e => balanced_cons (nestOne_other rfl rfl) (balanced_fit e (balanced_body e) _)
  | .await e => balanced_cons (fun _ => rfl) (balanced_fit e (balanced_body e) _)
  | .binary _ left right =>
    balanced_append (balanced_fit left (balanced_body left) _)
      (balanced_cons (nestOne_other rfl rfl) (balanced_fit right (balanced_body right) _))

theorem balanced_bodies : (es : List Expr) → ∀ ts ∈ bodiesLexemes es, Balanced ts
  | [] => by simp [bodiesLexemes]
  | e :: rest => List.forall_mem_cons.mpr ⟨balanced_body e, balanced_bodies rest⟩

end

end Expr

/-! ## One line -/

/-- The text has no newline, so it is no more than one line of what is written. -/
def Text.NoNewline (t : Text) : Prop := .char '\n' ∉ t

namespace Text

instance (t : Text) : Decidable t.NoNewline := inferInstanceAs (Decidable (_ ∉ _))

@[simp] theorem noNewline_nil : NoNewline [] := List.not_mem_nil

@[simp] theorem noNewline_append (s t : Text) : NoNewline (s ++ t) ↔ s.NoNewline ∧ t.NoNewline := by
  simp [NoNewline]

theorem noNewline_flatMap {α : Type} {f : α → Text} {l : List α} (h : ∀ a ∈ l, (f a).NoNewline) :
    NoNewline (l.flatMap f) := by
  simpa [NoNewline] using h

theorem noNewline_iff_onOneLine {t : Text} : t.NoNewline ↔ t.onOneLine = true := by
  simp [NoNewline, onOneLine]

theorem noNewline_of_forall {p : Glyph → Bool} {t : Text} (h : ∀ g ∈ t, p g = true)
    (hp : p (.char '\n') = false) : t.NoNewline := by
  intro hmem
  rw [h _ hmem] at hp
  cases hp

@[simp] theorem noNewline_ofChars (cs : List Char) : (ofChars cs).NoNewline ↔ '\n' ∉ cs := by
  simp [NoNewline, ofChars]

@[simp] theorem noNewline_ofString (s : String) : (ofString s).NoNewline ↔ '\n' ∉ s.toList :=
  noNewline_ofChars s.toList

theorem noNewline_listed {parts : List Text} (h : ∀ t ∈ parts, t.NoNewline) :
    (joined ", " parts).NoNewline := by
  induction parts with
  | nil => exact noNewline_nil
  | cons t rest ih =>
    obtain ⟨ht, hrest⟩ := List.forall_mem_cons.mp h
    cases rest with
    | nil => exact ht
    | cons u more => simp [joined, ht, ih hrest]

end Text

theorem noNewline_hex (width n : Nat) : (Text.hex width n).NoNewline :=
  Text.noNewline_of_forall (Name.isWord_hex width n) rfl

theorem noNewline_escape {g : Glyph} {t : Text} (h : g.escape? = some t) : t.NoNewline := by
  unfold Glyph.escape? at h
  repeat' split at h
  all_goals cases h
  all_goals simp [noNewline_hex]

/-- A newline is one of the glyphs that have an escape. -/
theorem noNewline_plain {g : Glyph} (h : g.escape? = none) : Text.NoNewline [g] := by
  intro hmem
  rw [← List.mem_singleton.mp hmem] at h
  cases h

theorem noNewline_escapeCode (n : Nat) : (escapeCode n).NoNewline := by
  unfold escapeCode
  split <;> simp [noNewline_hex]

theorem noNewline_quoted (t : Text) : t.quoted.NoNewline := by
  have hglyphs : Text.NoNewline (t.flatMap Glyph.quoted) := by
    refine Text.noNewline_flatMap fun g _ => ?_
    unfold Glyph.quoted
    cases h : g.escape? with
    | none => exact noNewline_plain h
    | some e => exact noNewline_escape h
  simp [Text.quoted, hglyphs]

theorem noNewline_quotedAscii (t : Text) : t.quotedAscii.NoNewline := by
  have hglyphs : Text.NoNewline (t.flatMap Glyph.quotedAscii) := by
    refine Text.noNewline_flatMap fun g _ => ?_
    unfold Glyph.quotedAscii
    cases h : g.escape? with
    | none =>
      rw [Option.getD_none]
      split
      · exact noNewline_plain h
      · exact noNewline_escapeCode _
    | some e => exact noNewline_escape h
  simp [Text.quotedAscii, hglyphs]

theorem noNewline_signed {m : Magnitude} (h : m.Proper) (negative : Bool) :
    (signText negative ++ Text.ofChars m.chars : Text).NoNewline := by
  have hsign : (signText negative).NoNewline := by cases negative <;> decide
  simp [hsign, newline_not_mem_chars h]

theorem noNewline_ofInt (n : Int) : (Text.ofInt n).NoNewline := by
  have h := noNewline_signed (toDigits_proper n.natAbs) (n < 0)
  rwa [chars_decimal, fractionChars, Option.getD_none, List.append_nil, List.append_nil,
    ← ofInt_eq] at h

theorem noNewline_word {w : Text} (h : IsWord w) : w.NoNewline := by
  obtain ⟨c, cs, rfl, hc, hcs⟩ := h
  rw [Text.noNewline_ofChars]
  intro hmem
  rcases List.mem_cons.mp hmem with rfl | hmem
  · cases hc
  · cases hcs _ hmem

mutual

theorem noNewline_line : (v : Json) → v.line.NoNewline
  | .null | .bool true | .bool false => by decide
  | .int n => noNewline_ofInt n
  | .double .nan | .double (.infinity true) | .double (.infinity false) => by decide
  | .double (.finite negative m e) => by
    rw [Json.line, Double.documented_finite]
    exact noNewline_signed (Double.finiteMagnitude_proper m e) negative
  | .str t => noNewline_quotedAscii t
  | .arr items => by
    simp [Json.line, Text.noNewline_listed (noNewline_lineItems items)]
  | .obj fields => by
    simp [Json.line, Text.noNewline_listed (noNewline_lineFields fields)]

theorem noNewline_lineItems : (items : List Json) → ∀ t ∈ Json.lineItems items, t.NoNewline
  | [] => by simp [Json.lineItems]
  | v :: rest => List.forall_mem_cons.mpr ⟨noNewline_line v, noNewline_lineItems rest⟩

theorem noNewline_lineFields :
    (fields : List (Text × Json)) → ∀ t ∈ Json.lineFields fields, t.NoNewline
  | [] => by simp [Json.lineFields]
  | (k, v) :: rest => by
    refine List.forall_mem_cons.mpr ⟨?_, noNewline_lineFields rest⟩
    simp [noNewline_quotedAscii, noNewline_line v]

end

namespace Expr

theorem noNewline_fit (e : Expr) {t : Text} (h : t.NoNewline) (place : Int) :
    (e.fit t place).NoNewline := by
  unfold fit wrap
  split
  · split
    · simp [h]
    · exact h
  · exact h

mutual

theorem noNewline_body {e : Expr} (h : e.WellFormed) : e.body.NoNewline := by
  match e with
  | .numeral n =>
    rw [body, numeral_text_eq]
    exact noNewline_signed h n.negative
  | .plain t | .text t => exact noNewline_quoted t
  | .data v => exact noNewline_line v
  | .zero => decide
  | .name w => exact noNewline_word h.1
  | .member e field =>
    simp [body, noNewline_fit e (noNewline_body h.2.1), noNewline_word h.2.2]
  | .call callee arguments =>
    simp [body, noNewline_fit callee (noNewline_body h.2.1),
      Text.noNewline_listed (noNewline_bodies h.2.2)]
  | .not e =>
    have h : e.WellFormed := h
    simp [body, noNewline_fit e (noNewline_body h)]
  | .await e =>
    have h : e.WellFormed := h
    simp [body, noNewline_fit e (noNewline_body h)]
  | .binary op left right =>
    have hsymbol : op.symbol.NoNewline := by cases op <;> decide
    simp [body, hsymbol, noNewline_fit left (noNewline_body h.1),
      noNewline_fit right (noNewline_body h.2)]

theorem noNewline_bodies {es : List Expr} (h : AllWellFormed es) :
    ∀ t ∈ bodies es, t.NoNewline := by
  match es with
  | [] => simp [bodies]
  | e :: es => exact List.forall_mem_cons.mpr ⟨noNewline_body h.1, noNewline_bodies h.2⟩

end

theorem noNewline_render {e : Expr} (h : e.WellFormed) (place : Int) : (e.render place).NoNewline :=
  noNewline_fit e (noNewline_body h) place

theorem spells_render {e : Expr} (h : e.WellFormed) (place : Int) {rest : Text} (hr : Breaks rest) :
    Spells (e.render place) (e.fitLexemes e.bodyLexemes place) rest :=
  spells_fit (fun r hr => spells_body h r hr.1 (.inr hr.2)) place hr

theorem balanced_render (e : Expr) (place : Int) : Balanced (e.fitLexemes e.bodyLexemes place) :=
  balanced_fit e (balanced_body e) place

end Expr

end BlockScript
