-- A text in double quotes is a literal of its own: no glyph inside it ends the
-- line or the literal, a scan for the closing quote stops at the last glyph,
-- and what the literal stands for is the text.
import BlockScript.Proofs.Documents

namespace BlockScript

/-! ## The closing quote -/

/-- Where a scan that starts inside a literal stops: the place of the first quote that no backslash
escapes. -/
def closingQuote? : Text → Option Nat
  | [] => none
  | g :: rest =>
    if g = .char '"' then some 0
    else if g = .char '\\' then
      match rest with
      | [] => none
      | _ :: more => (closingQuote? more).map (· + 2)
    else (closingQuote? rest).map (· + 1)

theorem closingQuote_plain {g : Glyph} (hquote : g ≠ .char '"') (hslash : g ≠ .char '\\')
    (rest : Text) : closingQuote? (g :: rest) = (closingQuote? rest).map (· + 1) := by
  rw [closingQuote?.eq_def]
  simp only [if_neg hquote, if_neg hslash]

theorem closingQuote_escape (g : Glyph) (rest : Text) :
    closingQuote? (.char '\\' :: g :: rest) = (closingQuote? rest).map (· + 2) := by
  rw [closingQuote?]
  rfl

/-- The scan passes a piece of a literal: it stops as far after the piece as it would have without
it. -/
def Passed (piece : Text) : Prop :=
  ∀ rest, closingQuote? (piece ++ rest) = (closingQuote? rest).map (· + piece.length)

theorem passed_nil : Passed [] := by
  intro rest
  simp

theorem passed_append {a b : Text} (ha : Passed a) (hb : Passed b) : Passed (a ++ b) := by
  intro rest
  rw [List.append_assoc, ha, hb, Option.map_map, List.length_append]
  congr 1
  funext k
  simp only [Function.comp_apply]
  omega

theorem passed_plain {g : Glyph} (hquote : g ≠ .char '"') (hslash : g ≠ .char '\\') :
    Passed [g] :=
  fun rest => closingQuote_plain hquote hslash rest

theorem passed_escape (g : Glyph) : Passed [.char '\\', g] := closingQuote_escape g

theorem passed_flatMap {f : Glyph → Text} (t : Text) (h : ∀ g, Passed (f g)) :
    Passed (t.flatMap f) := by
  induction t with
  | nil => exact passed_nil
  | cons g t ih =>
    rw [List.flatMap_cons]
    exact passed_append (h g) ih

theorem closingQuote_of_passed {body : Text} (h : Passed body) (rest : Text) :
    closingQuote? (body ++ .char '"' :: rest) = some body.length := by
  rw [h, closingQuote?.eq_def]
  simp

/-! ## Escapes -/

theorem passed_words {t : Text} (h : ∀ g ∈ t, g.isWord = true) : Passed t := by
  induction t with
  | nil => exact passed_nil
  | cons g t ih =>
    rw [List.forall_mem_cons] at h
    have hplain : Passed [g] := by
      apply passed_plain
      · rintro rfl
        exact absurd h.1 (by decide)
      · rintro rfl
        exact absurd h.1 (by decide)
    exact passed_append hplain (ih h.2)

theorem code_of_isWord {g : Glyph} (h : g.isWord = true) : 0x20 ≤ g.code := by
  cases g with
  | half n => cases h
  | char c =>
    by_contra hlow
    have hall : ∀ k < 0x20, (Glyph.char (Char.ofNat k)).isWord = false := by decide
    have hc := hall c.toNat (by simpa [Glyph.code] using hlow)
    rw [Char.ofNat_toNat] at hc
    rw [hc] at h
    cases h

/-- A backslash, one more glyph that prints, and word glyphs. -/
def IsEscape (e : Text) : Prop :=
  ∃ (c : Char) (digits : Text), e = [.char '\\', .char c] ++ digits ∧ 0x20 ≤ c.toNat ∧
    ∀ d ∈ digits, d.isWord = true

theorem isEscape_pair {c : Char} (hc : 0x20 ≤ c.toNat) : IsEscape [.char '\\', .char c] :=
  ⟨c, [], rfl, hc, by simp⟩

theorem isEscape_of_escape {g : Glyph} {e : Text} (h : g.escape? = some e) : IsEscape e := by
  unfold Glyph.escape? at h
  split_ifs at h <;> cases h
  -- the seven short escapes, and the one by number
  iterate 7 exact isEscape_pair (by decide)
  exact ⟨'u', Text.hex 4 g.code, rfl, by decide, Name.isWord_hex 4 g.code⟩

theorem plain_of_escape {g : Glyph} (h : g.escape? = none) :
    g ≠ .char '"' ∧ g ≠ .char '\\' ∧ 0x20 ≤ g.code := by
  grind [Glyph.escape?]

theorem passed_quoted (g : Glyph) : Passed g.quoted := by
  unfold Glyph.quoted
  cases he : g.escape? with
  | none =>
    obtain ⟨hquote, hslash, -⟩ := plain_of_escape he
    exact passed_plain hquote hslash
  | some e =>
    obtain ⟨c, digits, rfl, -, hdigits⟩ := isEscape_of_escape he
    exact passed_append (passed_escape (.char c)) (passed_words hdigits)

theorem code_of_mem_quoted {g h : Glyph} (hmem : h ∈ g.quoted) : 0x20 ≤ h.code := by
  unfold Glyph.quoted at hmem
  cases he : g.escape? with
  | none =>
    rw [he, Option.getD_none, List.mem_singleton] at hmem
    rw [hmem]
    exact (plain_of_escape he).2.2
  | some e =>
    obtain ⟨c, digits, rfl, hc, hdigits⟩ := isEscape_of_escape he
    rw [he, Option.getD_some, List.mem_append] at hmem
    rcases hmem with hmark | hdigit
    · rcases List.mem_pair.mp hmark with rfl | rfl
      · decide
      · exact hc
    · exact code_of_isWord (hdigits h hdigit)

/-! ## Literals -/

theorem read_quoted (t : Text) : Json.read t.quoted = .ok (.str t) := by
  have hcanonical : (Json.str t).IsCanonical := trivial
  have htext : (Json.str t).indented = t.quoted := by
    rw [indented_eq]
    rfl
  rw [← htext, Json.read, readDocument_indented hcanonical]
  rfl

/-- The quoted text of a string is a literal between two double quotes that is closed nowhere before
its end, holds no control character, and stands for the string, as JSON and as JavaScript. So no
two strings have one literal. -/
theorem quoted_text_is_a_closed_literal_of_its_string (t : Text) (place : Int) :
    ∃ body : Text, (Expr.quoted (.str t)).render place = .char '"' :: body ++ [.char '"'] ∧
      (∀ g ∈ body, 0x20 ≤ g.code) ∧
      (∀ rest, closingQuote? (body ++ .char '"' :: rest) = some body.length) ∧
      Json.read ((Expr.quoted (.str t)).render place) = .ok (.str t) ∧
      (∀ rest, string? (body ++ .char '"' :: rest) = some (t.units, rest)) ∧
      ∀ u, (Expr.quoted (.str u)).render place = (Expr.quoted (.str t)).render place → u = t := by
  have hrender : ∀ u : Text, (Expr.quoted (.str u)).render place = u.quoted := fun u => rfl
  refine ⟨t.flatMap Glyph.quoted, hrender t, ?_, ?_, ?_, string_quoted t, ?_⟩
  · intro g hg
    obtain ⟨h, -, hmem⟩ := List.mem_flatMap.mp hg
    exact code_of_mem_quoted hmem
  · exact closingQuote_of_passed (passed_flatMap t passed_quoted)
  · rw [hrender]
    exact read_quoted t
  · intro u hu
    rw [hrender, hrender] at hu
    have hread := read_quoted u
    rw [hu, read_quoted t] at hread
    cases hread
    rfl

end BlockScript
