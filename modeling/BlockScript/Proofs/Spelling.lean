-- How written pieces are cut into lexemes. A piece spells its lexemes if they
-- come off the front of the text, whatever follows, as long as that cannot
-- run into the last of them.
import BlockScript.Proofs.Lexeme
import BlockScript.Proofs.Utf8

namespace BlockScript

/-- The text is cut into just these lexemes when `rest` follows it. -/
def Spells (t : Text) (ts : List Lexeme) (rest : Text) : Prop :=
  lexemes? (t ++ rest) = (lexemes? rest).map (ts ++ ·)

/-- No name, number or point goes on at the start of the text. -/
def Breaks (rest : Text) : Prop :=
  Text.opens isNamePart rest = false ∧ Text.opens (· == '.') rest = false

/-! ## Putting pieces together -/

theorem lexemes_nil : lexemes? [] = some [] := by
  unfold lexemes?
  rfl

theorem spells_nil (rest : Text) : Spells [] [] rest := by
  simp [Spells]

theorem spells_append {s t : Text} {as bs : List Lexeme} {rest : Text}
    (hs : Spells s as (t ++ rest)) (ht : Spells t bs rest) : Spells (s ++ t) (as ++ bs) rest := by
  unfold Spells at *
  rw [List.append_assoc, hs, ht, Option.map_map]
  congr 1
  funext ts
  simp

theorem spells_space (rest : Text) : Spells " " [] rest := by
  unfold Spells
  have h : (Text.ofString " " ++ rest : Text) = .char ' ' :: rest := rfl
  rw [h, lexemes?]
  simp [Text.opens, isGap]

/-- One lexeme comes off if it is read up to where `rest` starts. -/
theorem spells_lexeme {t : Text} {tok : Lexeme} {rest : Text}
    (h : lexeme? (t ++ rest) = some (tok, rest)) (hne : t ≠ [])
    (hgap : Text.opens isGap t = false) : Spells t [tok] rest := by
  obtain ⟨g, more, rfl⟩ := List.exists_cons_of_ne_nil hne
  unfold Spells
  have hgap' : Text.opens isGap (g :: (more ++ rest)) = false := by
    cases g <;> simp_all [Text.opens]
  rw [List.cons_append] at h ⊢
  rw [lexemes?]
  simp [hgap', h]

/-! ## Runs -/

theorem run_of_not_opens {p : Char → Bool} {rest : Text} (h : Text.opens p rest = false) :
    Text.run p rest = ([], rest) := by
  rcases rest with _ | ⟨g, more⟩
  · rfl
  · cases g with
    | char c => simp_all [Text.run, Text.opens]
    | half n => rfl

theorem run_ofChars {p : Char → Bool} {cs : List Char} {rest : Text} (h : ∀ c ∈ cs, p c = true)
    (hr : Text.opens p rest = false) : Text.run p (Text.ofChars cs ++ rest) = (cs, rest) := by
  induction cs with
  | nil => exact run_of_not_opens hr
  | cons c cs ih =>
    have hc : p c = true := h c (by simp)
    have ih := ih fun d hd => h d (by simp [hd])
    simp only [Text.ofChars, List.map_cons, List.cons_append] at ih ⊢
    simp [Text.run, hc, ih]

/-- What opens with no character of a class opens with none of a smaller class. -/
theorem not_opens_of_imp {p q : Char → Bool} {rest : Text} (hpq : ∀ c, q c = true → p c = true)
    (h : Text.opens p rest = false) : Text.opens q rest = false := by
  rcases rest with _ | ⟨g, more⟩
  · rfl
  · cases g with
    | char c =>
      simp only [Text.opens] at h ⊢
      cases hq : q c
      · rfl
      · simp [hpq c hq] at h
    | half n => rfl

/-! ## Words -/

/-- A text that is one word. -/
def IsWord (w : Text) : Prop :=
  ∃ c cs, w = Text.ofChars (c :: cs) ∧ isNameStart c = true ∧ ∀ d ∈ cs, isNamePart d = true

def Glyph.isNamePart : Glyph → Bool
  | .char c => BlockScript.isNamePart c
  | .half _ => false

theorem isWord_cons_iff {c : Char} {t : Text} :
    IsWord (.char c :: t) ↔ isNameStart c = true ∧ ∀ g ∈ t, g.isNamePart = true := by
  constructor
  · rintro ⟨c', cs, heq, hc, hcs⟩
    cases heq
    refine ⟨hc, ?_⟩
    intro g hg
    obtain ⟨d, hd, rfl⟩ := List.mem_map.mp hg
    exact hcs d hd
  · rintro ⟨hc, ht⟩
    have hchars : ∃ cs, t = Text.ofChars cs ∧ ∀ d ∈ cs, isNamePart d = true := by
      induction t with
      | nil => exact ⟨[], rfl, by simp⟩
      | cons g t ih =>
        obtain ⟨cs, rfl, hcs⟩ := ih fun g hg => ht g (by simp [hg])
        have hg := ht g (by simp)
        cases g with
        | half n => cases hg
        | char d =>
          have hd : isNamePart d = true := hg
          exact ⟨d :: cs, rfl, by simpa using ⟨hd, hcs⟩⟩
    obtain ⟨cs, rfl, hcs⟩ := hchars
    exact ⟨c, cs, rfl, hc, hcs⟩

instance decidableIsWord : (t : Text) → Decidable (IsWord t)
  | .char _ :: _ => decidable_of_iff _ isWord_cons_iff.symm
  | [] => isFalse fun ⟨_, _, heq, _⟩ => nomatch heq
  | .half _ :: _ => isFalse fun ⟨_, _, heq, _⟩ => nomatch heq

/-- Characters that differ in a class are different. -/
theorem ne_of_class {p : Char → Bool} {c d : Char} (hc : p c = true) (hd : p d = false) :
    c ≠ d := by
  rintro rfl
  simp [hc] at hd

theorem isAlpha_iff (c : Char) :
    c.isAlpha = true ↔
      ('A'.val ≤ c.val ∧ c.val ≤ 'Z'.val) ∨ ('a'.val ≤ c.val ∧ c.val ≤ 'z'.val) := by
  have h : c.isAlpha = (decide ('A'.val ≤ c.val ∧ c.val ≤ 'Z'.val) ||
      (decide ('a'.val ≤ c.val) && decide (c.val ≤ 'z'.val))) := rfl
  simp only [h, Bool.or_eq_true, Bool.and_eq_true, decide_eq_true_eq]

theorem not_isDigit_of_isAlpha {c : Char} (h : c.isAlpha = true) : c.isDigit = false := by
  rw [isAlpha_iff] at h
  simp only [Char.isDigit, Bool.and_eq_false_iff, decide_eq_false_iff_not]
  grind

theorem isNamePart_of_isNameStart {c : Char} (h : isNameStart c = true) : isNamePart c = true := by
  simp only [isNameStart, isNamePart, Char.isAlphanum, Bool.or_eq_true] at *
  grind

theorem isNamePart_of_isDigit {c : Char} (h : c.isDigit = true) : isNamePart c = true := by
  simp [isNamePart, Char.isAlphanum, h]

theorem not_isDigit_of_isNameStart {c : Char} (h : isNameStart c = true) : c.isDigit = false := by
  simp only [isNameStart, Bool.or_eq_true, beq_iff_eq] at h
  rcases h with (h | rfl) | rfl
  · exact not_isDigit_of_isAlpha h
  · decide
  · decide

/-- A character of a class without gaps is no gap. -/
theorem not_isGap_of_class {p : Char → Bool} {c : Char} (hc : p c = true)
    (hp : [' ', '\t'].any p = false) : isGap c = false := by
  simp only [List.any_cons, List.any_nil, Bool.or_false, Bool.or_eq_false_iff] at hp
  obtain ⟨hspace, htab⟩ := hp
  simp [isGap, ne_of_class hc hspace, ne_of_class hc htab]

theorem spells_word {w rest : Text} (hw : IsWord w) (hr : Text.opens isNamePart rest = false) :
    Spells w [.word w] rest := by
  obtain ⟨c, cs, rfl, hc, hcs⟩ := hw
  have hall : ∀ d ∈ c :: cs, isNamePart d = true := by
    intro d hm
    rcases List.mem_cons.mp hm with rfl | hm
    · exact isNamePart_of_isNameStart hc
    · exact hcs d hm
  have hrun := run_ofChars hall hr
  have hquote : c ≠ '"' := ne_of_class hc (by decide)
  have hpoint : c ≠ '.' := ne_of_class hc (by decide)
  have hdigit := not_isDigit_of_isNameStart hc
  apply spells_lexeme
  · simp only [Text.ofChars, List.map_cons, List.cons_append] at hrun ⊢
    simp [lexeme?, Text.opens, startsNumber, hquote, hpoint, hdigit, hc, hrun, Text.ofChars]
  · simp [Text.ofChars]
  · exact not_isGap_of_class hc (by decide)

/-! ## Marks -/

/-- The marks that no other mark starts with. -/
def brackets : List (String × Mark) :=
  [("(", .openParen), (")", .closeParen), ("[", .openBracket), ("]", .closeBracket),
   ("\x7b", .openBrace), ("\x7d", .closeBrace), (",", .comma), (":", .colon)]

theorem spells_bracket {s : String} {m : Mark} (h : (s, m) ∈ brackets) (rest : Text) :
    Spells s [.mark m] rest := by
  simp only [brackets, List.mem_cons, Prod.mk.injEq, List.not_mem_nil, or_false] at h
  rcases h with ⟨rfl, rfl⟩ | ⟨rfl, rfl⟩ | ⟨rfl, rfl⟩ | ⟨rfl, rfl⟩ | ⟨rfl, rfl⟩ | ⟨rfl, rfl⟩ |
    ⟨rfl, rfl⟩ | ⟨rfl, rfl⟩ <;> exact spells_lexeme rfl (by decide) (by decide)

/-- An operator between two spaces. -/
theorem spells_operator (op : Operator) (rest : Text) :
    Spells (" " ++ op.symbol ++ " ") [.mark (.operator op)] rest := by
  have hop : Spells op.symbol [.mark (.operator op)] (" " ++ rest) := by
    apply spells_lexeme
    · cases op <;> rfl
    · cases op <;> decide
    · cases op <;> decide
  have h := spells_append (spells_space _) (spells_append hop (spells_space rest))
  simpa using h

theorem spells_not {rest : Text} (h : Text.opens (· == '=') rest = false) :
    Spells "!" [.mark .not] rest := by
  apply spells_lexeme _ (by decide) (by decide)
  rcases rest with _ | ⟨g, more⟩
  · rfl
  · cases g with
    | half n => rfl
    | char c =>
      have hc : '=' ≠ c := by rintro rfl; simp [Text.opens] at h
      simp [lexeme?, Text.ofString, Text.opens, startsNumber, mark?, marks, Text.after?,
        isNameStart, hc]

theorem spells_minus {rest : Text} (h : Text.opens (fun c => c == '=' || c == '-') rest = false) :
    Spells "-" [.mark (.operator .minus)] rest := by
  apply spells_lexeme _ (by decide) (by decide)
  rcases rest with _ | ⟨g, more⟩
  · rfl
  · cases g with
    | half n => rfl
    | char c =>
      have hc : '=' ≠ c ∧ '-' ≠ c := by
        constructor <;> rintro rfl <;> simp [Text.opens] at h
      simp [lexeme?, Text.ofString, Text.opens, startsNumber, mark?, marks, Text.after?,
        isNameStart, hc.1, hc.2]

/-- A point with a name after it. -/
theorem spells_dot {rest : Text} (h : Text.opens isNameStart rest = true) :
    Spells "." [.mark .dot] rest := by
  apply spells_lexeme _ (by decide) (by decide)
  rcases rest with _ | ⟨g, more⟩
  · simp [Text.opens] at h
  · cases g with
    | half n => simp [Text.opens] at h
    | char c =>
      have hs : isNameStart c = true := h
      have hc : '.' ≠ c := (ne_of_class hs (by decide)).symm
      have hd := not_isDigit_of_isNameStart hs
      simp [lexeme?, Text.ofString, Text.opens, startsNumber, mark?, marks, Text.after?,
        isNameStart, hc, hd]

/-! ## Strings -/

theorem hexValue_digitChar {n : Nat} (h : n < 16) :
    (Glyph.char (Nat.digitChar n)).hexValue? = some n := by
  have hall : ∀ k : Fin 16, (Glyph.char (Nat.digitChar k)).hexValue? = some k.val := by decide
  exact hall ⟨n, h⟩

theorem hexQuad_hex {n : Nat} (h : n < 0x10000) (more : Text) :
    ∃ a b c d, Text.hex 4 n ++ more = a :: b :: c :: d :: more ∧ hexQuad? a b c d = some n := by
  refine ⟨_, _, _, _, rfl, ?_⟩
  simp only [hexQuad?, hexValue_digitChar (Nat.mod_lt _ (by decide : 16 > 0))]
  simp
  omega

theorem string_hex {n : Nat} (h : n < 0x10000) {more : Text} {units : List Nat} {left : Text}
    (hmore : string? more = some (units, left)) :
    string? ("\\u" ++ Text.hex 4 n ++ more) = some (n :: units, left) := by
  obtain ⟨a, b, c, d, hhex, hquad⟩ := hexQuad_hex h more
  have ht : ("\\u" ++ Text.hex 4 n ++ more : Text) =
      .char '\\' :: .char 'u' :: a :: b :: c :: d :: more := by
    rw [List.append_assoc, hhex]
    rfl
  rw [ht, string?]
  simp [Glyph.breaks, hquad, hmore]

theorem eq_char_of_code {g : Glyph} {c : Char} (h : g.code = c.toNat) (hc : c.toNat < 0xD800) :
    g = .char c := by
  cases g with
  | char d => simpa [Glyph.code, Char.toNat_inj] using h
  | half n => simp only [Glyph.code] at h; omega

theorem string_simple {c : Char} {made : Glyph} (h : simpleEscape? (.char c) = some made)
    {more : Text} {units : List Nat} {left : Text} (hmore : string? more = some (units, left)) :
    string? (.char '\\' :: .char c :: more) = some (made.units ++ units, left) := by
  have hc : c ≠ 'u' := by rintro rfl; simp [simpleEscape?] at h
  rw [string?.eq_def]
  simp [Glyph.breaks, hc, h, hmore]

/-- The escape of a glyph stands for the units of that glyph. -/
theorem string_escape {g : Glyph} {e : Text} (h : g.escape? = some e) {more : Text}
    {units : List Nat} {left : Text} (hmore : string? more = some (units, left)) :
    string? (e ++ more) = some (g.units ++ units, left) := by
  unfold Glyph.escape? at h
  split at h
  · rename_i hg; subst hg; cases h; exact string_simple rfl hmore
  split at h
  · rename_i hg; subst hg; cases h; exact string_simple rfl hmore
  split at h
  · rename_i hg; subst hg; cases h; exact string_simple rfl hmore
  split at h
  · rename_i hg; subst hg; cases h; exact string_simple rfl hmore
  split at h
  · rename_i hg; subst hg; cases h; exact string_simple rfl hmore
  split at h
  · rename_i hg
    rw [eq_char_of_code (c := '\x08') hg (by decide)]
    cases h; exact string_simple rfl hmore
  split at h
  · rename_i hg
    rw [eq_char_of_code (c := '\x0c') hg (by decide)]
    cases h; exact string_simple rfl hmore
  split at h
  · rename_i hg
    cases h
    have hunits : g.units = [g.code] := by
      unfold Glyph.units
      exact if_pos (by omega)
    rw [hunits]
    exact string_hex (by omega) hmore
  · cases h

theorem string_plain {g : Glyph} (h : g.escape? = none) {more : Text}
    {units : List Nat} {left : Text} (hmore : string? more = some (units, left)) :
    string? (g :: more) = some (g.units ++ units, left) := by
  unfold Glyph.escape? at h
  split at h; · cases h
  split at h; · cases h
  split at h; · cases h
  split at h; · cases h
  rename_i h1 h2 h3 h4
  rw [string?.eq_def]
  simp [Glyph.breaks, h1, h2, h3, h4, hmore]

theorem string_quoted (t rest : Text) :
    string? (t.flatMap Glyph.quoted ++ .char '"' :: rest) = some (t.units, rest) := by
  induction t with
  | nil => rw [List.flatMap_nil, List.nil_append, string?.eq_def]; rfl
  | cons g t ih =>
    rw [List.flatMap_cons, List.append_assoc]
    unfold Glyph.quoted
    cases he : g.escape? with
    | none => exact string_plain he ih
    | some e => exact string_escape he ih

/-- Escapes by number stand for the units of a code point. -/
theorem string_escapeCode (g : Glyph) {more : Text} {units : List Nat} {left : Text}
    (hmore : string? more = some (units, left)) :
    string? (escapeCode g.code ++ more) = some (g.units ++ units, left) := by
  have hg := code_lt g
  unfold escapeCode Glyph.units
  split
  · rename_i h
    exact string_hex h hmore
  · have hlow := string_hex (n := 0xDC00 + (g.code - 0x10000) % 0x400) (by omega) hmore
    have hhigh := string_hex (n := 0xD800 + (g.code - 0x10000) / 0x400) (by omega) hlow
    simpa using hhigh

theorem string_quotedAscii (t rest : Text) :
    string? (t.flatMap Glyph.quotedAscii ++ .char '"' :: rest) = some (t.units, rest) := by
  induction t with
  | nil => rw [List.flatMap_nil, List.nil_append, string?.eq_def]; rfl
  | cons g t ih =>
    rw [List.flatMap_cons, List.append_assoc]
    unfold Glyph.quotedAscii
    cases he : g.escape? with
    | none =>
      simp only [Option.getD_none]
      split
      · exact string_plain he ih
      · exact string_escapeCode g ih
    | some e => exact string_escape he ih

/-- A text between double quotes is one string if the glyphs inside read as its units. -/
theorem spells_string {inside : Text} {units : List Nat} {rest : Text}
    (h : string? (inside ++ .char '"' :: rest) = some (units, rest)) :
    Spells ("\"" ++ inside ++ "\"") [.string units] rest := by
  apply spells_lexeme
  · have ht : ("\"" ++ inside ++ "\"" ++ rest : Text) =
        .char '"' :: (inside ++ .char '"' :: rest) := by
      simp [Text.ofString]
    rw [ht]
    simp [lexeme?, Text.opens, h]
  · simp [Text.ofString]
  · rfl

theorem spells_quoted (t rest : Text) : Spells t.quoted [.string t.units] rest :=
  spells_string (string_quoted t rest)

theorem spells_quotedAscii (t rest : Text) : Spells t.quotedAscii [.string t.units] rest :=
  spells_string (string_quotedAscii t rest)

end BlockScript
