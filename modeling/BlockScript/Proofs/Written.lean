-- Written expressions as lexemes. Every form of expression that the compiler
-- makes spells the lexemes given here, and the tree beside them is the one
-- that its operators and calls are meant to form.
import BlockScript.Proofs.Numerals
import BlockScript.Proofs.Tree
import Mathlib.Data.List.Forall2

namespace BlockScript

/-! ## Trees -/

/-- The tree with a minus in front, if there is one. -/
def Tree.signed (negative : Bool) (e : Tree) : Tree := if negative then .negate e else e

def Numeral.tree (n : Numeral) : Tree := Tree.signed n.negative (.number n.magnitude)

/-- The tree of a double: the numeral that its written form spells, or the name of what is not
finite. -/
def Double.tree (d : Double) : Tree :=
  match Numeral.read? d.documented, d with
  | some n, _ => n.tree
  | none, .infinity negative => Tree.signed negative (.name "Infinity")
  | none, _ => .name "NaN"

mutual

/-- The tree of a plain value. -/
def Json.tree : Json → Tree
  | .null => .name "null"
  | .bool true => .name "true"
  | .bool false => .name "false"
  | .int n => Tree.signed (n < 0) (.number (.decimal (Nat.toDigits 10 n.natAbs) none none))
  | .double d => d.tree
  | .str t => .string t.units
  | .arr items => .array (Json.treeItems items)
  | .obj fields => .object (Json.treeFields fields)

def Json.treeItems : List Json → List Tree
  | [] => []
  | v :: rest => v.tree :: Json.treeItems rest

def Json.treeFields : List (Text × Json) → List (List Nat × Tree)
  | [] => []
  | (k, v) :: rest => (k.units, v.tree) :: Json.treeFields rest

end

mutual

/-- The tree that an expression is meant to form. -/
def Expr.tree : Expr → Tree
  | .numeral n => n.tree
  | .plain t => .string t.units
  | .data v => v.tree
  | .zero => .number (.decimal ['0'] none none)
  | .text t => .string t.units
  | .name w => .name w
  | .member e field => .member e.tree field
  | .call callee arguments => .call callee.tree (Expr.trees arguments)
  | .not e => .not e.tree
  | .await e => .await e.tree
  | .binary op left right => .binary op left.tree right.tree
  | .verbatim t => .name t

def Expr.trees : List Expr → List Tree
  | [] => []
  | e :: rest => e.tree :: Expr.trees rest

end

/-! ## Lexemes -/

/-- The parts with a comma after each one but the last. -/
def separated : List (List Lexeme) → List Lexeme
  | [] => []
  | [ts] => ts
  | ts :: rest => ts ++ .mark .comma :: separated rest

def Double.lexemes : Double → List Lexeme
  | .nan => [.word "NaN"]
  | .infinity negative => signLexemes negative ++ [.word "Infinity"]
  | .finite negative m e => signLexemes negative ++ [.number (Double.finiteMagnitude m e)]

mutual

def Json.lexemes : Json → List Lexeme
  | .null => [.word "null"]
  | .bool true => [.word "true"]
  | .bool false => [.word "false"]
  | .int n => signLexemes (n < 0) ++ [.number (.decimal (Nat.toDigits 10 n.natAbs) none none)]
  | .double d => d.lexemes
  | .str t => [.string t.units]
  | .arr items =>
    .mark .openBracket :: (separated (Json.lexemeItems items) ++ [.mark .closeBracket])
  | .obj fields => .mark .openBrace :: (separated (Json.lexemeFields fields) ++ [.mark .closeBrace])

def Json.lexemeItems : List Json → List (List Lexeme)
  | [] => []
  | v :: rest => v.lexemes :: Json.lexemeItems rest

def Json.lexemeFields : List (Text × Json) → List (List Lexeme)
  | [] => []
  | (k, v) :: rest => (.string k.units :: .mark .colon :: v.lexemes) :: Json.lexemeFields rest

end

namespace Expr

/-- The lexemes of an expression at a place, in parentheses as the place asks. -/
def fitLexemes (e : Expr) (ts : List Lexeme) (place : Int) : List Lexeme :=
  match e.rank? with
  | some r =>
    if r.level < place then .mark .openParen :: (ts ++ [.mark .closeParen]) else ts
  | none => ts

mutual

/-- The lexemes of an expression without parentheses around it. -/
def bodyLexemes : Expr → List Lexeme
  | .numeral n => signLexemes n.negative ++ [.number n.magnitude]
  | .plain t => [.string t.units]
  | .data v => v.lexemes
  | .zero => [.number (.decimal ['0'] none none)]
  | .text t => [.string t.units]
  | .name w => [.word w]
  | .member e field => fitLexemes e (bodyLexemes e) Rank.atom.level ++ [.mark .dot, .word field]
  | .call callee arguments =>
    fitLexemes callee (bodyLexemes callee) Rank.atom.level
      ++ .mark .openParen :: (separated (bodiesLexemes arguments) ++ [.mark .closeParen])
  | .not e => .mark .not :: fitLexemes e (bodyLexemes e) Rank.unary.level
  | .await e => .word "await" :: fitLexemes e (bodyLexemes e) Rank.unary.level
  | .binary op left right =>
    fitLexemes left (bodyLexemes left) op.leftPlace
      ++ .mark (.operator op) :: fitLexemes right (bodyLexemes right) op.rightPlace
  | .verbatim t => [.word t]

def bodiesLexemes : List Expr → List (List Lexeme)
  | [] => []
  | e :: rest => bodyLexemes e :: bodiesLexemes rest

end

/-! ## Well-formed expressions -/

/-- A name, a member or a call: what a member or a call can be asked of. -/
def isCallee : Expr → Bool
  | .name _ | .member _ _ | .call _ _ => true
  | _ => false

mutual

/-- An expression whose names and numbers the language takes as such. -/
def WellFormed : Expr → Prop
  | .numeral n => n.magnitude.Proper
  | .name w => IsWord w ∧ isReserved w = false
  | .member e field => e.isCallee = true ∧ WellFormed e ∧ IsWord field
  | .call callee arguments => callee.isCallee = true ∧ WellFormed callee ∧ AllWellFormed arguments
  | .not e | .await e => WellFormed e
  | .binary _ left right => WellFormed left ∧ WellFormed right
  | .verbatim _ => False
  | .plain _ | .data _ | .zero | .text _ => True

def AllWellFormed : List Expr → Prop
  | [] => True
  | e :: rest => WellFormed e ∧ AllWellFormed rest

end

end Expr

/-! ## Plain values -/

theorem spells_separator (rest : Text) : Spells ", " [.mark .comma] rest := by
  have hcomma : Spells "," [.mark .comma] (" " ++ rest) := spells_bracket (by decide) _
  exact spells_append hcomma (spells_space rest)

/-- A text between an opening and a closing mark. -/
theorem spells_enclosed {s e : String} {m m' : Mark} {t : Text} {ts : List Lexeme} {rest : Text}
    (hs : (s, m) ∈ brackets) (he : (e, m') ∈ brackets) (h : Spells t ts (e ++ rest)) :
    Spells (s ++ t ++ e) (.mark m :: (ts ++ [.mark m'])) rest := by
  have hopen := spells_append (spells_bracket hs _) h
  exact spells_append hopen (spells_bracket he rest)

/-- Parts that spell their lexemes before a comma or the end do so when they are joined. -/
theorem spells_joined {parts : List Text} {tss : List (List Lexeme)} {rest : Text}
    (hr : Breaks rest)
    (h : List.Forall₂ (fun t ts => ∀ rest, Breaks rest → Spells t ts rest) parts tss) :
    Spells (Text.joined ", " parts) (separated tss) rest := by
  induction h with
  | nil => exact spells_nil rest
  | @cons t ts parts tss ht hrest ih =>
    cases hrest with
    | nil => exact ht rest hr
    | cons hu hmore =>
      have hsep := spells_append (spells_separator _) ih
      have hall := spells_append (ht _ ⟨rfl, rfl⟩) hsep
      simpa [Text.joined, separated] using hall

theorem spells_double (d : Double) {rest : Text} (hr : Breaks rest) :
    Spells d.documented d.lexemes rest := by
  cases d with
  | nan => exact spells_word (w := "NaN") (by decide) hr.1
  | infinity negative =>
    have hword : Spells "Infinity" [.word "Infinity"] rest :=
      spells_word (by decide) hr.1
    have hsign : Spells (signText negative) (signLexemes negative) ("Infinity" ++ rest) :=
      spells_sign negative rfl
    cases negative <;> exact spells_append hsign hword
  | finite negative m e =>
    rw [Double.documented_finite]
    exact spells_signed (Double.finiteMagnitude_proper m e) negative hr

mutual

/-- A plain value in one line spells its lexemes. -/
theorem spells_line (v : Json) (rest : Text) (hr : Breaks rest) : Spells v.line v.lexemes rest := by
  match v with
  | .null => exact spells_word (w := "null") (by decide) hr.1
  | .bool true => exact spells_word (w := "true") (by decide) hr.1
  | .bool false => exact spells_word (w := "false") (by decide) hr.1
  | .int n => exact spells_ofInt n hr
  | .double d => exact spells_double d hr
  | .str t => exact spells_quotedAscii t rest
  | .arr items =>
    have hitems : Spells _ _ ("]" ++ rest) := spells_joined ⟨rfl, rfl⟩ (spells_lineItems items)
    rw [Json.line, Json.lexemes]
    exact spells_enclosed (by decide) (by decide) hitems
  | .obj fields =>
    have hfields : Spells _ _ ("\x7d" ++ rest) :=
      spells_joined ⟨rfl, rfl⟩ (spells_lineFields fields)
    rw [Json.line, Json.lexemes]
    exact spells_enclosed (by decide) (by decide) hfields

theorem spells_lineItems (items : List Json) :
    List.Forall₂ (fun t ts => ∀ rest, Breaks rest → Spells t ts rest)
      (Json.lineItems items) (Json.lexemeItems items) := by
  match items with
  | [] => exact .nil
  | v :: rest => exact .cons (spells_line v) (spells_lineItems rest)

theorem spells_lineFields (fields : List (Text × Json)) :
    List.Forall₂ (fun t ts => ∀ rest, Breaks rest → Spells t ts rest)
      (Json.lineFields fields) (Json.lexemeFields fields) := by
  match fields with
  | [] => exact .nil
  | (k, v) :: more =>
    refine .cons ?_ (spells_lineFields more)
    intro rest hr
    have hcolon : Spells ":" [.mark .colon] (" " ++ v.line ++ rest) := spells_bracket (by decide) _
    have hvalue := spells_append (spells_space (v.line ++ rest)) (spells_line v rest hr)
    have h := spells_append (spells_quotedAscii k _) (spells_append hcolon hvalue)
    simpa [Text.ofString, Text.ofChars] using h

end

/-! ## Expressions -/

/-- The text is not empty and starts with no equals sign, so an exclamation mark may stand before
it. -/
def Leads (t : Text) : Prop := ∀ rest : Text, Text.opens (· == '=') (t ++ rest) = false

theorem leads_append {s : Text} (h : Leads s) (t : Text) : Leads (s ++ t) := by
  intro rest
  rw [List.append_assoc]
  exact h _

theorem leads_signed {m : Magnitude} (h : m.Proper) (negative : Bool) :
    Leads (signText negative ++ Text.ofChars m.chars) := by
  cases negative with
  | true => exact fun _ => rfl
  | false => exact not_opens_magnitude h (fun _ hc => not_of_isDigit hc (by decide)) (by decide)

theorem leads_word {w : Text} (h : IsWord w) : Leads w := by
  obtain ⟨c, cs, rfl, hc, -⟩ := h
  intro rest
  have hne : c ≠ '=' := ne_of_class hc (by decide)
  simpa [Text.ofChars, Text.opens] using hne

theorem leads_line (v : Json) : Leads v.line := by
  cases v with
  | int n =>
    rw [Json.line, ofInt_eq]
    have h := leads_signed (toDigits_proper n.natAbs) (n < 0)
    rwa [chars_decimal, fractionChars, Option.getD_none, List.append_nil, List.append_nil] at h
  | double d =>
    cases d with
    | finite negative m e =>
      rw [Json.line, Double.documented_finite]
      exact leads_signed (Double.finiteMagnitude_proper m e) negative
    | nan => exact fun _ => rfl
    | infinity negative => cases negative <;> exact fun _ => rfl
  | bool b => cases b <;> exact fun _ => rfl
  | null | str | arr | obj => exact fun _ => rfl

namespace Expr

theorem leads_fit {e : Expr} (h : Leads e.body) (place : Int) : Leads (e.fit e.body place) := by
  unfold fit
  split
  · unfold wrap
    split
    · exact fun _ => rfl
    · exact h
  · exact h

theorem leads_body {e : Expr} (h : e.WellFormed) : Leads e.body := by
  match e with
  | .numeral n =>
    rw [body, numeral_text_eq]
    exact leads_signed h n.negative
  | .data v => exact leads_line v
  | .name w => exact leads_word h.1
  | .member e field =>
    rw [body, List.append_assoc]
    exact leads_append (leads_fit (leads_body h.2.1) _) _
  | .call callee arguments =>
    simp only [body, List.append_assoc]
    exact leads_append (leads_fit (leads_body h.2.1) _) _
  | .binary op left right =>
    simp only [body, List.append_assoc]
    exact leads_append (leads_fit (leads_body h.1) _) _
  | .plain _ | .zero | .text _ | .not _ | .await _ => exact fun _ => rfl

theorem spells_fit {e : Expr} (h : ∀ rest, Breaks rest → Spells e.body e.bodyLexemes rest)
    (place : Int) {rest : Text} (hr : Breaks rest) :
    Spells (e.fit e.body place) (e.fitLexemes e.bodyLexemes place) rest := by
  cases hrank : e.rank? with
  | none =>
    simp only [fit, fitLexemes, hrank]
    exact h rest hr
  | some r =>
    simp only [fit, fitLexemes, hrank, wrap]
    by_cases hlow : r.level < place
    · have hinner : Spells _ _ (")" ++ rest) := h _ ⟨rfl, rfl⟩
      rw [if_pos hlow, if_pos hlow]
      exact spells_enclosed (by decide) (by decide) hinner
    · rw [if_neg hlow, if_neg hlow]
      exact h rest hr

theorem fit_of_isCallee {e : Expr} (h : e.isCallee = true) (t : Text) (place : Int) :
    e.fit t place = t := by
  cases e <;> simp_all [isCallee, fit, rank?]

theorem fitLexemes_of_isCallee {e : Expr} (h : e.isCallee = true) (ts : List Lexeme) (place : Int) :
    e.fitLexemes ts place = ts := by
  cases e <;> simp_all [isCallee, fitLexemes, rank?]

mutual

/-- An expression spells its lexemes before anything that does not go on with its last lexeme. A
point after a name, a member or a call does not. -/
theorem spells_body {e : Expr} (h : e.WellFormed) (rest : Text)
    (hname : Text.opens isNamePart rest = false)
    (hdot : e.isCallee = true ∨ Text.opens (· == '.') rest = false) :
    Spells e.body e.bodyLexemes rest := by
  match e with
  | .numeral n => exact spells_numeral h ⟨hname, by simpa [isCallee] using hdot⟩
  | .plain t => exact spells_quoted t rest
  | .data v => exact spells_line v rest ⟨hname, by simpa [isCallee] using hdot⟩
  | .zero =>
    exact spells_magnitude (m := .decimal ['0'] none none) (toDigits_proper 0)
      ⟨hname, by simpa [isCallee] using hdot⟩
  | .text t => exact spells_quoted t rest
  | .name w => exact spells_word h.1 hname
  | .member e field =>
    obtain ⟨hcallee, he, hfield⟩ := h
    rw [body, bodyLexemes, fit_of_isCallee hcallee, fitLexemes_of_isCallee hcallee,
      List.append_assoc]
    have hword := spells_word hfield hname
    have hpoint : Spells "." [.mark .dot] (field ++ rest) := by
      obtain ⟨c, cs, rfl, hc, -⟩ := hfield
      exact spells_dot hc
    exact spells_append (spells_body he _ rfl (.inl hcallee)) (spells_append hpoint hword)
  | .call callee arguments =>
    obtain ⟨hcallee, he, harguments⟩ := h
    rw [body, bodyLexemes, fit_of_isCallee hcallee, fitLexemes_of_isCallee hcallee]
    simp only [List.append_assoc]
    have hlist : Spells _ _ (")" ++ rest) := spells_joined ⟨rfl, rfl⟩ (spells_bodies harguments)
    apply spells_append (spells_body he _ rfl (.inl hcallee))
    rw [← List.append_assoc]
    exact spells_enclosed (by decide) (by decide) hlist
  | .not e =>
    have hr : Breaks rest := ⟨hname, by simpa [isCallee] using hdot⟩
    have h : e.WellFormed := h
    have hbody r (hr : Breaks r) := spells_body h r hr.1 (.inr hr.2)
    have hmark := spells_not (leads_fit (leads_body h) Rank.unary.level rest)
    exact spells_append hmark (spells_fit hbody Rank.unary.level hr)
  | .await e =>
    have hr : Breaks rest := ⟨hname, by simpa [isCallee] using hdot⟩
    have h : e.WellFormed := h
    have hbody r (hr : Breaks r) := spells_body h r hr.1 (.inr hr.2)
    have he := spells_fit hbody Rank.unary.level hr
    have hword : Spells "await" [.word "await"] (" " ++ (e.fit e.body Rank.unary.level ++ rest)) :=
      spells_word (by decide) rfl
    exact spells_append (spells_append hword (spells_space _)) he
  | .binary op left right =>
    have hr : Breaks rest := ⟨hname, by simpa [isCallee] using hdot⟩
    have hleft r (hr : Breaks r) := spells_body h.1 r hr.1 (.inr hr.2)
    have hright r (hr : Breaks r) := spells_body h.2 r hr.1 (.inr hr.2)
    have htail := spells_append (spells_operator op _) (spells_fit hright op.rightPlace hr)
    have hall := spells_append (spells_fit hleft op.leftPlace ⟨rfl, rfl⟩) htail
    simpa [body, bodyLexemes] using hall

theorem spells_bodies {es : List Expr} (h : AllWellFormed es) :
    List.Forall₂ (fun t ts => ∀ rest, Breaks rest → Spells t ts rest) (bodies es)
      (bodiesLexemes es) := by
  match es with
  | [] => exact .nil
  | e :: es =>
    exact .cons (fun r hr => spells_body h.1 r hr.1 (.inr hr.2)) (spells_bodies h.2)

end

/-- What is written at a place has the lexemes that the place asks for. -/
theorem lexemes_render {e : Expr} (h : e.WellFormed) (place : Int) :
    lexemes? (e.render place) = some (e.fitLexemes e.bodyLexemes place) := by
  have hspells : Spells (e.render place) (e.fitLexemes e.bodyLexemes place) [] :=
    spells_fit (fun r hr => spells_body h r hr.1 (.inr hr.2)) place ⟨rfl, rfl⟩
  simpa [Spells, lexemes_nil] using hspells

end Expr

end BlockScript
