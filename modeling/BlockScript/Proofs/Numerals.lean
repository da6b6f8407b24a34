-- Numerals of strict code. A proper magnitude is one that strict code takes;
-- reading a numeral gives a proper one, and a proper one is one lexeme.
import BlockScript.Proofs.Spelling

namespace BlockScript

/-! ## Proper magnitudes -/

/-- An exponent with its letter. -/
def IsExponentPart (x : List Char) : Prop :=
  ∃ c ds, x = c :: ds ∧ (c = 'e' ∨ c = 'E') ∧ isExponent ds = true

/-- A magnitude that strict code takes. -/
def Magnitude.Proper : Magnitude → Prop
  | .radix mark digits =>
    ∃ isDigit, radixDigit? mark = some isDigit ∧ digits ≠ [] ∧ ∀ c ∈ digits, isDigit c = true
  | .decimal whole fraction exponent =>
    (∀ c ∈ whole, c.isDigit = true) ∧ (∀ c ∈ fraction.getD [], c.isDigit = true) ∧
      isStrictWhole whole fraction = true ∧ ∀ x, exponent = some x → IsExponentPart x

/-- The fraction with its point. -/
def fractionChars : Option (List Char) → List Char
  | some ds => '.' :: ds
  | none => []

theorem chars_decimal (whole : List Char) (part exponent : Option (List Char)) :
    (Magnitude.decimal whole part exponent).chars
      = whole ++ (fractionChars part ++ exponent.getD []) := by
  cases part <;> simp [Magnitude.chars, fractionChars]

theorem ofChars_append (as bs : List Char) :
    Text.ofChars (as ++ bs) = Text.ofChars as ++ Text.ofChars bs := by
  simp [Text.ofChars]

/-! ## Proper magnitudes are lexemes -/

theorem not_opens_digit_of_breaks {rest : Text} (h : Breaks rest) :
    Text.opens Char.isDigit rest = false :=
  not_opens_of_imp (fun _ => isNamePart_of_isDigit) h.1

/-- The digits of an exponent, with what its sign is. -/
theorem isExponent_cases {ds : List Char} (h : isExponent ds = true) :
    ∃ sign digits, ds = sign ++ digits ∧ (sign = [] ∨ sign = ['+'] ∨ sign = ['-']) ∧ digits ≠ [] ∧
      ∀ c ∈ digits, c.isDigit = true := by
  unfold isExponent at h
  simp only [Bool.and_eq_true, Bool.not_eq_true', List.isEmpty_eq_false_iff,
    List.all_eq_true] at h
  split at h
  · exact ⟨['+'], _, rfl, by simp, h.1, h.2⟩
  · exact ⟨['-'], _, rfl, by simp, h.1, h.2⟩
  · exact ⟨[], ds, rfl, by simp, h.1, h.2⟩

theorem exponentSign_digits {ds : List Char} (hne : ds ≠ []) (h : ∀ c ∈ ds, c.isDigit = true)
    (rest : Text) : exponentSign (Text.ofChars ds ++ rest) = ([], Text.ofChars ds ++ rest) := by
  obtain ⟨c, cs, rfl⟩ := List.exists_cons_of_ne_nil hne
  have hc := h c (by simp)
  have h1 : c ≠ '+' := ne_of_class hc (by decide)
  have h2 : c ≠ '-' := ne_of_class hc (by decide)
  simp only [Text.ofChars, List.map_cons, List.cons_append]
  unfold exponentSign
  split <;> simp_all

theorem exponent_ofChars {x : Option (List Char)} (hx : ∀ y, x = some y → IsExponentPart y)
    {rest : Text} (hr : Breaks rest) :
    exponent? (Text.ofChars (x.getD []) ++ rest) = some (x, rest) := by
  have hdigit := not_opens_digit_of_breaks hr
  cases x with
  | none =>
    rcases rest with _ | ⟨g, more⟩
    · rfl
    · cases g with
      | half n => rfl
      | char c =>
        have hc : isNamePart c = false := hr.1
        have he : c ≠ 'e' ∧ c ≠ 'E' := by constructor <;> rintro rfl <;> simp [isNamePart] at hc
        simp [exponent?, Text.ofChars, he.1, he.2]
  | some y =>
    obtain ⟨c, ds, rfl, hc, hds⟩ := hx y rfl
    obtain ⟨sign, digits, rfl, hsign, hne, hdigits⟩ := isExponent_cases hds
    have hrun := run_ofChars hdigits hdigit
    have hplain := exponentSign_digits hne hdigits rest
    have hs : exponentSign (Text.ofChars (sign ++ digits) ++ rest)
        = (sign, Text.ofChars digits ++ rest) := by
      rw [ofChars_append, List.append_assoc]
      rcases hsign with rfl | rfl | rfl
      · exact hplain
      · rfl
      · rfl
    have ht : Text.ofChars (c :: (sign ++ digits)) ++ rest
        = .char c :: (Text.ofChars (sign ++ digits) ++ rest) := by simp [Text.ofChars]
    rw [Option.getD_some, ht]
    simp [exponent?, hc, hs, hrun, hne]

theorem fraction_ofChars {part : Option (List Char)} (h : ∀ c ∈ part.getD [], c.isDigit = true)
    {rest : Text} (hr : Text.opens Char.isDigit rest = false)
    (hp : part = none → Text.opens (· == '.') rest = false) :
    fraction (Text.ofChars (fractionChars part) ++ rest) = (part, rest) := by
  cases part with
  | none =>
    have hp := hp rfl
    simp only [fractionChars, Text.ofChars, List.map_nil, List.nil_append]
    unfold fraction
    split
    · simp [Text.opens] at hp
    · rfl
  | some ds =>
    have hrun := run_ofChars h hr
    simp only [Option.getD_some] at hrun
    simp only [fractionChars, Text.ofChars, List.map_cons, List.cons_append, fraction] at hrun ⊢
    simp [hrun]

/-- What follows the whole part of a decimal opens with a point, the letter of an exponent, or what
follows the number. -/
theorem not_opens_exponent {p : Char → Bool} {x : Option (List Char)}
    (hx : ∀ y, x = some y → IsExponentPart y) (he : p 'e' = false) (hE : p 'E' = false)
    {rest : Text}
    (hr : Text.opens p rest = false) : Text.opens p (Text.ofChars (x.getD []) ++ rest) = false := by
  cases x with
  | none => exact hr
  | some y =>
    obtain ⟨c, ds, rfl, rfl | rfl, -⟩ := hx y rfl
    · exact he
    · exact hE

theorem not_opens_fraction (part : Option (List Char)) {p : Char → Bool} (hp : p '.' = false)
    {rest : Text} (hr : Text.opens p rest = false) :
    Text.opens p (Text.ofChars (fractionChars part) ++ rest) = false := by
  cases part with
  | none => exact hr
  | some ds => exact hp

theorem decimal_chars {whole : List Char} {part exponent : Option (List Char)}
    (h : (Magnitude.decimal whole part exponent).Proper) {rest : Text} (hr : Breaks rest) :
    decimal? (Text.ofChars (Magnitude.decimal whole part exponent).chars ++ rest)
      = some (.decimal whole part exponent, rest) := by
  obtain ⟨hwhole, hpart, hstrict, hexp⟩ := h
  have hdigit := not_opens_exponent hexp (by decide) (by decide) (not_opens_digit_of_breaks hr)
  have hpoint := not_opens_exponent hexp (by decide) (by decide) hr.2
  have h1 := run_ofChars hwhole (not_opens_fraction part (by decide) hdigit)
  have h2 := fraction_ofChars hpart hdigit fun _ => hpoint
  have h3 := exponent_ofChars hexp hr
  rw [chars_decimal, ofChars_append, ofChars_append, List.append_assoc, List.append_assoc]
  simp [decimal?, h1, h2, h3, hstrict]

/-- Whether a letter marks a radix. -/
def isRadixMark (c : Char) : Bool := (radixDigit? c).isSome

theorem isNamePart_of_isRadixMark {c : Char} (h : isRadixMark c = true) : isNamePart c = true := by
  unfold isRadixMark radixDigit? at h
  split at h
  · rename_i hc; rcases hc with rfl | rfl <;> decide
  split at h
  · rename_i hc; rcases hc with rfl | rfl <;> decide
  split at h
  · rename_i hc; rcases hc with rfl | rfl <;> decide
  · simp at h

theorem radix_eq_none {c : Char} {t : Text} (h : c ≠ '0' ∨ Text.opens isRadixMark t = false) :
    radix? (.char c :: t) = none := by
  unfold radix?
  split
  · rename_i heq
    cases heq
    rcases h with h | h
    · exact absurd rfl h
    · have h : isRadixMark _ = false := h
      rw [isRadixMark, Option.isSome_eq_false_iff, Option.isNone_iff_eq_none] at h
      simp [h]
  · rfl

/-- A decimal is not taken for a number with a radix. -/
theorem radix_chars_decimal {whole : List Char} {part exponent : Option (List Char)}
    (h : (Magnitude.decimal whole part exponent).Proper) {rest : Text} (hr : Breaks rest) :
    radix? (Text.ofChars (Magnitude.decimal whole part exponent).chars ++ rest) = none := by
  obtain ⟨-, -, hstrict, hexp⟩ := h
  have hmark := not_opens_of_imp (q := isRadixMark) (fun _ => isNamePart_of_isRadixMark) hr.1
  have hmark := not_opens_exponent hexp (by decide) (by decide) hmark
  have hmark := not_opens_fraction part (by decide) hmark
  rw [chars_decimal, ofChars_append, ofChars_append, List.append_assoc, List.append_assoc]
  rcases whole with _ | ⟨c, cs⟩
  · cases part with
    | none => simp [isStrictWhole] at hstrict
    | some ds => exact radix_eq_none (Or.inl (by decide))
  · apply radix_eq_none
    simp only [isStrictWhole, ne_eq, Bool.or_eq_true, decide_eq_true_eq,
      List.isEmpty_iff] at hstrict
    rcases hstrict with hc | rfl
    · exact Or.inl hc
    · exact Or.inr hmark

theorem isNamePart_of_radixDigit {mark : Char} {p : Char → Bool} (h : radixDigit? mark = some p)
    {c : Char} (hc : p c = true) : isNamePart c = true := by
  unfold radixDigit? at h
  simp only [isNamePart, Char.isAlphanum, isAlpha_iff, Char.isDigit, Bool.or_eq_true,
    Bool.and_eq_true, decide_eq_true_eq]
  split at h
  · cases h
    simp only [Char.isDigit, Bool.or_eq_true, Bool.and_eq_true, decide_eq_true_eq,
      Char.le_def] at hc
    grind
  split at h
  · cases h
    simp only [Bool.and_eq_true, decide_eq_true_eq, Char.le_def] at hc
    grind
  split at h
  · cases h
    simp only [Bool.or_eq_true, decide_eq_true_eq] at hc
    rcases hc with rfl | rfl <;> decide
  · cases h

theorem number_chars {m : Magnitude} (h : m.Proper) {rest : Text} (hr : Breaks rest) :
    number? (Text.ofChars m.chars ++ rest) = some (m, rest) := by
  cases m with
  | radix mark digits =>
    obtain ⟨p, hp, hne, hdigits⟩ := h
    have hrun := run_ofChars hdigits
      (not_opens_of_imp (fun _ hc => isNamePart_of_radixDigit hp hc) hr.1)
    have ht : Text.ofChars (Magnitude.radix mark digits).chars ++ rest
        = .char '0' :: .char mark :: (Text.ofChars digits ++ rest) := by
      simp [Magnitude.chars, Text.ofChars]
    rw [ht]
    simp [number?, radix?, hp, hrun, hne, hr.1]
  | decimal whole part exponent =>
    simp [number?, radix_chars_decimal h hr, decimal_chars h hr, hr.1]

/-- A proper magnitude starts with a digit, or with a point and a digit. -/
theorem chars_start {m : Magnitude} (h : m.Proper) :
    (∃ c cs, m.chars = c :: cs ∧ c.isDigit = true) ∨
      ∃ c cs, m.chars = '.' :: c :: cs ∧ c.isDigit = true := by
  cases m with
  | radix mark digits => exact Or.inl ⟨'0', _, rfl, by decide⟩
  | decimal whole part exponent =>
    obtain ⟨hwhole, hpart, hstrict, -⟩ := h
    rw [chars_decimal]
    rcases whole with _ | ⟨c, cs⟩
    · simp only [isStrictWhole, Bool.not_eq_true', List.isEmpty_eq_false_iff] at hstrict
      obtain ⟨d, ds, hds⟩ := List.exists_cons_of_ne_nil hstrict
      cases part with
      | none => simp at hstrict
      | some fs =>
        simp only [Option.getD_some] at hds hpart
        subst hds
        exact Or.inr ⟨d, ds ++ exponent.getD [], rfl, hpart d (by simp)⟩
    · exact Or.inl ⟨c, _, rfl, hwhole c (by simp)⟩

/-- A class without digits and points does not hold the start of a number. -/
theorem not_opens_magnitude {m : Magnitude} (h : m.Proper) {p : Char → Bool}
    (hd : ∀ c, c.isDigit = true → p c = false) (hp : p '.' = false) (rest : Text) :
    Text.opens p (Text.ofChars m.chars ++ rest) = false := by
  rcases chars_start h with ⟨c, cs, hm, hc⟩ | ⟨c, cs, hm, -⟩ <;> rw [hm]
  · exact hd c hc
  · exact hp

theorem not_of_isDigit {c d : Char} (hc : c.isDigit = true) (hd : d.isDigit = false) :
    (c == d) = false := by
  simpa using ne_of_class hc hd

theorem spells_magnitude {m : Magnitude} (h : m.Proper) {rest : Text} (hr : Breaks rest) :
    Spells (Text.ofChars m.chars) [.number m] rest := by
  have hnumber := number_chars h hr
  have hquote := not_opens_magnitude h (p := (· == '"'))
    (fun _ hc => not_of_isDigit hc (by decide)) (by decide) rest
  have hstart : startsNumber (Text.ofChars m.chars ++ rest) = true := by
    rcases chars_start h with ⟨c, cs, hm, hc⟩ | ⟨c, cs, hm, hc⟩ <;> rw [hm]
    · have hpoint : c ≠ '.' := ne_of_class hc (by decide)
      simp [Text.ofChars, startsNumber, Text.opens, hpoint, hc]
    · exact hc
  have hne : m.chars ≠ [] := by
    rcases chars_start h with ⟨c, cs, hm, -⟩ | ⟨c, cs, hm, -⟩ <;> simp [hm]
  apply spells_lexeme
  · simp [lexeme?, hquote, hstart, hnumber]
  · simpa [Text.ofChars] using hne
  · have hgap := not_opens_magnitude h (p := isGap)
      (fun _ hc => not_isGap_of_class hc (by decide)) (by decide) []
    simpa using hgap

/-! ## Signs -/

/-- A minus sign, if there is one. -/
def signText (negative : Bool) : Text := if negative then "-" else []

def signLexemes (negative : Bool) : List Lexeme :=
  if negative then [.mark (.operator .minus)] else []

theorem spells_sign (negative : Bool) {rest : Text}
    (h : Text.opens (fun c => c == '=' || c == '-') rest = false) :
    Spells (signText negative) (signLexemes negative) rest := by
  cases negative
  · exact spells_nil rest
  · exact spells_minus h

theorem spells_signed {m : Magnitude} (h : m.Proper) (negative : Bool) {rest : Text}
    (hr : Breaks rest) :
    Spells (signText negative ++ Text.ofChars m.chars) (signLexemes negative ++ [.number m])
      rest := by
  apply spells_append (spells_sign negative _) (spells_magnitude h hr)
  apply not_opens_magnitude h
  · intro c hc
    simp [not_of_isDigit hc (d := '=') (by decide), not_of_isDigit hc (d := '-') (by decide)]
  · decide

theorem numeral_text_eq (n : Numeral) :
    n.text = signText n.negative ++ Text.ofChars n.magnitude.chars := by
  unfold Numeral.text signText
  cases n.negative <;> simp [Text.ofChars, Text.ofString]

theorem spells_numeral {n : Numeral} (h : n.magnitude.Proper) {rest : Text} (hr : Breaks rest) :
    Spells n.text (signLexemes n.negative ++ [.number n.magnitude]) rest := by
  rw [numeral_text_eq]
  exact spells_signed h n.negative hr

/-! ## Reading gives proper magnitudes -/

theorem mem_takeWhile_isDigit {cs : List Char} {c : Char} (h : c ∈ cs.takeWhile Char.isDigit) :
    c.isDigit = true := by
  have hall := List.all_takeWhile (p := Char.isDigit) (l := cs)
  exact List.all_eq_true.mp hall c h

/-- Digits without leading zeros are strict, whatever the fraction. -/
theorem isStrictWhole_trim (ds : List Char) (part : Option (List Char)) :
    isStrictWhole (trimLeadingZeros ds) part = true := by
  unfold trimLeadingZeros
  split
  · rfl
  · rename_i rest hne
    obtain ⟨c, cs, hc⟩ := List.exists_cons_of_ne_nil hne
    have hz : c ≠ '0' := by
      have hhead := List.head?_dropWhile_not (p := (· = '0')) (l := ds)
      simp [hc] at hhead
      exact hhead
    simp [hc, isStrictWhole, hz]

theorem mem_trimLeadingZeros {ds : List Char} {c : Char} (h : c ∈ trimLeadingZeros ds) :
    c = '0' ∨ c ∈ ds := by
  unfold trimLeadingZeros at h
  split at h
  · exact Or.inl (by simpa using h)
  · exact Or.inr (List.dropWhile_sublist _ |>.mem h)

theorem readRadix_proper {cs : List Char} {m : Magnitude} (h : Magnitude.readRadix? cs = some m) :
    m.Proper := by
  unfold Magnitude.readRadix? at h
  split at h
  · split at h
    · rename_i digits _ p hp
      split at h
      · rename_i hdigits
        cases h
        simp only [Bool.and_eq_true, Bool.not_eq_true', List.isEmpty_eq_false_iff,
          List.all_eq_true] at hdigits
        exact ⟨p, hp, hdigits.1, hdigits.2⟩
      · cases h
    · cases h
  · cases h

theorem readNumeralExponent_proper {cs : List Char} {x : Option (List Char)}
    (h : readNumeralExponent? cs = some x) : ∀ y, x = some y → IsExponentPart y := by
  unfold readNumeralExponent? at h
  split at h
  · cases h
    intro y hy
    cases hy
  · split at h
    · rename_i c rest hc
      cases h
      intro y hy
      cases hy
      exact ⟨c, rest, rfl, hc.1, hc.2⟩
    · cases h

/-- What a decimal is made of, as it is read. -/
def readFraction (cs : List Char) : Option (List Char) × List Char :=
  match cs with
  | '.' :: more => (some (more.takeWhile Char.isDigit), more.dropWhile Char.isDigit)
  | _ => (none, cs)

theorem readDecimal_eq (cs : List Char) :
    Magnitude.readDecimal? cs =
      (readNumeralExponent? (readFraction (cs.dropWhile Char.isDigit)).2).bind fun exponent =>
        let part := (readFraction (cs.dropWhile Char.isDigit)).1
        let whole := cs.takeWhile Char.isDigit
        if whole.isEmpty then
          if (part.getD []).isEmpty then none else some (.decimal [] part exponent)
        else some (.decimal (trimLeadingZeros whole) part exponent) := by
  unfold Magnitude.readDecimal? readFraction
  split <;> rename_i hrest <;> simp only [hrest] <;> split <;> simp_all

theorem readFraction_digits (cs : List Char) :
    ∀ c ∈ (readFraction cs).1.getD [], c.isDigit = true := by
  intro c hc
  unfold readFraction at hc
  split at hc
  · exact mem_takeWhile_isDigit hc
  · simp at hc

theorem readDecimal_proper {cs : List Char} {m : Magnitude}
    (h : Magnitude.readDecimal? cs = some m) :
    m.Proper := by
  rw [readDecimal_eq, Option.bind_eq_some_iff] at h
  obtain ⟨x, hx, h⟩ := h
  have hexp := readNumeralExponent_proper hx
  have hpart := readFraction_digits (cs.dropWhile Char.isDigit)
  simp only at h
  split at h
  · split at h
    · cases h
    · rename_i hne
      cases h
      exact ⟨by simp, hpart, by simpa [isStrictWhole] using hne, hexp⟩
  · cases h
    refine ⟨?_, hpart, isStrictWhole_trim _ _, hexp⟩
    intro c hc
    rcases mem_trimLeadingZeros hc with rfl | hc
    · decide
    · exact mem_takeWhile_isDigit hc

/-- The sign of a numeral and what follows it. -/
def readSign (cs : List Char) : Bool × List Char :=
  match cs with
  | '-' :: rest => (true, rest)
  | '+' :: rest => (false, rest)
  | _ => (false, cs)

theorem read_eq (t : Text) :
    Numeral.read? t = t.dropFinalNewline.chars?.bind fun cs =>
      ((Magnitude.readRadix? (readSign cs).2).or (Magnitude.readDecimal? (readSign cs).2)).map
        fun m => { negative := (readSign cs).1, magnitude := m } := by
  unfold Numeral.read?
  cases t.dropFinalNewline.chars? with
  | none => rfl
  | some cs =>
    rw [Option.bind_some, Option.map_eq_bind]
    rfl

theorem read_proper {t : Text} {n : Numeral} (h : Numeral.read? t = some n) :
    n.magnitude.Proper := by
  rw [read_eq, Option.bind_eq_some_iff] at h
  obtain ⟨cs, -, h⟩ := h
  obtain ⟨m, hm, rfl⟩ := Option.map_eq_some_iff.mp h
  rcases Option.or_eq_some_iff.mp hm with hm | ⟨-, hm⟩
  · exact readRadix_proper hm
  · exact readDecimal_proper hm

/-! ## Reading what was written -/

theorem dropFinalNewline_eq {t : Text} (h : .char '\n' ∉ t) : t.dropFinalNewline = t := by
  induction t with
  | nil => rfl
  | cons g rest ih =>
    have hg : g ≠ .char '\n' := fun hg => h (by simp [hg])
    cases rest with
    | nil => simp [Text.dropFinalNewline, hg]
    | cons g' rest =>
      have ih := ih fun hm => h (List.mem_cons_of_mem g hm)
      simp [Text.dropFinalNewline, ih]

theorem chars_ofChars (cs : List Char) : (Text.ofChars cs).chars? = some cs := by
  induction cs with
  | nil => rfl
  | cons c cs ih =>
    simp only [Text.ofChars, List.map_cons] at ih ⊢
    simp [Text.chars?, ih]

theorem trimLeadingZeros_eq {c : Char} {cs : List Char} {part : Option (List Char)}
    (h : isStrictWhole (c :: cs) part = true) : trimLeadingZeros (c :: cs) = c :: cs := by
  simp only [isStrictWhole, ne_eq, Bool.or_eq_true, decide_eq_true_eq, List.isEmpty_iff] at h
  by_cases hc : c = '0'
  · have hcs : cs = [] := by simpa [hc] using h
    subst hc hcs
    rfl
  · simp [trimLeadingZeros, hc]

theorem takeWhile_append_stop {p : Char → Bool} {as bs : List Char} (ha : ∀ c ∈ as, p c = true)
    (hb : ∀ c, bs.head? = some c → p c = false) :
    (as ++ bs).takeWhile p = as ∧ (as ++ bs).dropWhile p = bs := by
  rw [List.takeWhile_append_of_pos ha, List.dropWhile_append_of_pos ha]
  cases bs with
  | nil => simp
  | cons b bs => simp [hb b rfl]

/-- No digit opens an exponent, nor a fraction with its point. -/
theorem head_fraction_exponent {part x : Option (List Char)}
    (hx : ∀ y, x = some y → IsExponentPart y) {c : Char}
    (h : (fractionChars part ++ x.getD []).head? = some c) : c = '.' ∨ c = 'e' ∨ c = 'E' := by
  cases part with
  | some ds => exact Or.inl (by simpa [fractionChars] using h.symm)
  | none =>
    cases x with
    | none => simp [fractionChars] at h
    | some y =>
      obtain ⟨d, ds, rfl, hd, -⟩ := hx y rfl
      simp only [fractionChars, List.nil_append, Option.getD_some, List.head?_cons,
        Option.some.injEq] at h
      exact Or.inr (h ▸ hd)

theorem readFraction_chars {part x : Option (List Char)}
    (hpart : ∀ c ∈ part.getD [], c.isDigit = true) (hx : ∀ y, x = some y → IsExponentPart y) :
    readFraction (fractionChars part ++ x.getD []) = (part, x.getD []) := by
  have hstop : ∀ c, (x.getD []).head? = some c → c.isDigit = false ∧ c ≠ '.' := by
    intro c hc
    cases x with
    | none => simp at hc
    | some y =>
      obtain ⟨d, ds, rfl, hd, -⟩ := hx y rfl
      simp only [Option.getD_some, List.head?_cons, Option.some.injEq] at hc
      subst hc
      rcases hd with rfl | rfl <;> decide
  cases part with
  | some ds =>
    obtain ⟨htake, hdrop⟩ := takeWhile_append_stop hpart fun c hc => (hstop c hc).1
    simp only [Option.getD_some] at htake hdrop
    simp [fractionChars, readFraction, htake, hdrop]
  | none =>
    simp only [fractionChars, List.nil_append]
    unfold readFraction
    split
    · rename_i more heq
      exact absurd rfl (hstop '.' (by simp [heq])).2
    · rfl

theorem readNumeralExponent_chars {x : Option (List Char)}
    (hx : ∀ y, x = some y → IsExponentPart y) : readNumeralExponent? (x.getD []) = some x := by
  cases x with
  | none => rfl
  | some y =>
    obtain ⟨c, ds, rfl, hc, hds⟩ := hx y rfl
    simp [readNumeralExponent?, hc, hds]

theorem readDecimal_chars {whole : List Char} {part x : Option (List Char)}
    (h : (Magnitude.decimal whole part x).Proper) :
    Magnitude.readDecimal? (Magnitude.decimal whole part x).chars
      = some (.decimal whole part x) := by
  obtain ⟨hwhole, hpart, hstrict, hexp⟩ := h
  have hstop : ∀ c, (fractionChars part ++ x.getD []).head? = some c → c.isDigit = false := by
    intro c hc
    rcases head_fraction_exponent hexp hc with rfl | rfl | rfl <;> decide
  obtain ⟨htake, hdrop⟩ := takeWhile_append_stop hwhole hstop
  rw [readDecimal_eq, chars_decimal, htake, hdrop, readFraction_chars hpart hexp,
    readNumeralExponent_chars hexp]
  cases whole with
  | nil => simpa [isStrictWhole] using hstrict
  | cons c cs => simp [trimLeadingZeros_eq hstrict]

theorem readRadix_chars {mark : Char} {digits : List Char}
    (h : (Magnitude.radix mark digits).Proper) :
    Magnitude.readRadix? (Magnitude.radix mark digits).chars = some (.radix mark digits) := by
  obtain ⟨p, hp, hne, hdigits⟩ := h
  simp only [Magnitude.chars, Magnitude.readRadix?, hp]
  simp only [Bool.and_eq_true, Bool.not_eq_true', List.isEmpty_eq_false_iff, List.all_eq_true]
  rw [if_pos ⟨hne, hdigits⟩]

theorem readRadix_chars_decimal {whole : List Char} {part x : Option (List Char)}
    (h : (Magnitude.decimal whole part x).Proper) :
    Magnitude.readRadix? (Magnitude.decimal whole part x).chars = none := by
  obtain ⟨-, -, hstrict, hexp⟩ := h
  rw [chars_decimal]
  unfold Magnitude.readRadix?
  split
  · rename_i mark digits heq
    have hmark : radixDigit? mark = none := by
      rcases whole with _ | ⟨c, _ | ⟨d, cs⟩⟩
      · have hhead : (fractionChars part ++ x.getD []).head? = some '0' := by
          rw [List.nil_append] at heq
          simp [heq]
        rcases head_fraction_exponent hexp hhead with h0 | h0 | h0 <;> exact absurd h0 (by decide)
      · simp only [List.cons_append, List.nil_append, List.cons.injEq] at heq
        have hhead : (fractionChars part ++ x.getD []).head? = some mark := by simp [heq.2]
        rcases head_fraction_exponent hexp hhead with rfl | rfl | rfl <;> decide
      · simp only [List.cons_append, List.cons.injEq] at heq
        simp [isStrictWhole, heq.1] at hstrict
    simp [hmark]
  · rfl

/-- A proper magnitude is made of letters, digits, points and signs. -/
theorem not_mem_chars {m : Magnitude} (h : m.Proper) {c : Char} (hname : isNamePart c = false)
    (hmarks : c ∉ ['.', '+', '-']) : c ∉ m.chars := by
  have hdigit : c.isDigit = false := by
    simp only [isNamePart, Char.isAlphanum, Bool.or_eq_false_iff] at hname
    exact hname.1.1.2
  have hother : ∀ d, isNamePart d = true → c ≠ d := fun d hd => (ne_of_class hd hname).symm
  intro hmem
  cases m with
  | radix mark digits =>
    obtain ⟨p, hp, -, hdigits⟩ := h
    have hmark : isNamePart mark = true := isNamePart_of_isRadixMark (by simp [isRadixMark, hp])
    simp only [Magnitude.chars, List.mem_cons] at hmem
    rcases hmem with h0 | heq | hmem
    · exact hother '0' (by decide) h0
    · exact hother mark hmark heq
    · exact hother c (isNamePart_of_radixDigit hp (hdigits _ hmem)) rfl
  | decimal whole part x =>
    obtain ⟨hwhole, hpart, -, hexp⟩ := h
    rw [chars_decimal, List.mem_append, List.mem_append] at hmem
    rcases hmem with hmem | hmem | hmem
    · exact absurd (hwhole _ hmem) (by simp [hdigit])
    · cases part with
      | none => simp [fractionChars] at hmem
      | some ds =>
        simp only [fractionChars, List.mem_cons, Option.getD_some] at hmem hpart
        rcases hmem with rfl | hmem
        · exact hmarks (by simp)
        · exact absurd (hpart _ hmem) (by simp [hdigit])
    · cases x with
      | none => simp at hmem
      | some y =>
        obtain ⟨e, ds, rfl, he, hds⟩ := hexp y rfl
        obtain ⟨sign, digits, rfl, hsign, -, hdigits⟩ := isExponent_cases hds
        simp only [Option.getD_some, List.mem_cons, List.mem_append] at hmem
        rcases hmem with rfl | hmem | hmem
        · rcases he with rfl | rfl
          · exact hother 'e' (by decide) rfl
          · exact hother 'E' (by decide) rfl
        · rcases hsign with rfl | rfl | rfl
          · cases hmem
          · exact hmarks (by simp [List.mem_singleton.mp hmem])
          · exact hmarks (by simp [List.mem_singleton.mp hmem])
        · exact absurd (hdigits _ hmem) (by simp [hdigit])

/-- A proper magnitude is written on one line. -/
theorem newline_not_mem_chars {m : Magnitude} (h : m.Proper) : '\n' ∉ m.chars :=
  not_mem_chars h (by decide) (by decide)

/-- A proper numeral is read as it was written. -/
theorem read_text {n : Numeral} (h : n.magnitude.Proper) : Numeral.read? n.text = some n := by
  obtain ⟨negative, m⟩ := n
  have hsign : readSign ((if negative then ['-'] else []) ++ m.chars) = (negative, m.chars) := by
    cases negative with
    | true => rfl
    | false =>
      rcases chars_start h with ⟨c, cs, hm, hc⟩ | ⟨c, cs, hm, -⟩ <;> simp only at hm <;> rw [hm]
      · have h1 : c ≠ '-' := ne_of_class hc (by decide)
        have h2 : c ≠ '+' := ne_of_class hc (by decide)
        simp [readSign, h1, h2]
      · rfl
  have hline : .char '\n' ∉ Numeral.text ⟨negative, m⟩ := by
    have hm := newline_not_mem_chars h
    cases negative <;> simpa [Numeral.text, Text.ofChars] using hm
  have hm : (Magnitude.readRadix? m.chars).or (Magnitude.readDecimal? m.chars) = some m := by
    cases m with
    | radix mark digits => rw [readRadix_chars h]; rfl
    | decimal whole part x => rw [readRadix_chars_decimal h, readDecimal_chars h]; rfl
  rw [read_eq, dropFinalNewline_eq hline]
  simp only [Numeral.text, chars_ofChars, Option.bind_some, hsign, hm, Option.map_some]

/-! ## Whole numbers -/

/-- The digits of a number that is not zero do not start with a zero. -/
theorem toDigits_start {n : Nat} (h : 0 < n) :
    ∃ c cs, Nat.toDigits 10 n = c :: cs ∧ c ≠ '0' := by
  induction n using Nat.strongRecOn with
  | ind n ih =>
    by_cases hn : n < 10
    · refine ⟨n.digitChar, [], Nat.toDigits_of_lt_base hn, ?_⟩
      have hall : ∀ k : Fin 10, 0 < k.val → Nat.digitChar k ≠ '0' := by decide
      exact hall ⟨n, hn⟩ h
    · obtain ⟨c, cs, hc, hne⟩ := ih (n / 10) (by omega) (by omega)
      exact ⟨c, cs ++ [(n % 10).digitChar], by
        rw [Nat.toDigits_of_base_le (by decide) (by omega), hc]; rfl, hne⟩

theorem isDigit_toDigits {n : Nat} : ∀ c ∈ Nat.toDigits 10 n, c.isDigit = true :=
  fun _ hc => Nat.isDigit_of_mem_toDigits (by decide) (by decide) hc

theorem toDigits_proper (n : Nat) : (Magnitude.decimal (Nat.toDigits 10 n) none none).Proper := by
  refine ⟨isDigit_toDigits, by simp, ?_, by simp⟩
  rcases Nat.eq_zero_or_pos n with rfl | hn
  · rfl
  · obtain ⟨c, cs, hc, hne⟩ := toDigits_start hn
    simp [hc, isStrictWhole, hne]

theorem ofInt_eq (n : Int) :
    Text.ofInt n = signText (n < 0) ++ Text.ofChars (Nat.toDigits 10 n.natAbs) := by
  cases n with
  | ofNat k => rfl
  | negSucc k =>
    have hneg : decide (Int.negSucc k < 0) = true := by simp [Int.negSucc_lt_zero]
    rw [hneg]
    rfl

theorem spells_ofInt (n : Int) {rest : Text} (hr : Breaks rest) :
    Spells (Text.ofInt n)
      (signLexemes (n < 0) ++ [.number (.decimal (Nat.toDigits 10 n.natAbs) none none)]) rest := by
  have h := spells_signed (toDigits_proper n.natAbs) (n < 0) hr
  rw [chars_decimal] at h
  rw [ofInt_eq]
  simpa [fractionChars] using h

/-! ## Doubles -/

namespace Double

theorem pick_pos {g : Grid} {m : Nat} {e : Int} {c : Nat} (h : g.pick? m e = some c) : 0 < c := by
  unfold Grid.pick? at h
  simp only at h
  split at h
  · rename_i hlow
    simp only [gt_iff_lt, Bool.and_eq_true, decide_eq_true_eq] at hlow
    split at h
    · cases h
      unfold roundDiv
      simp only
      split <;> omega
    · cases h
      exact hlow.1
  · split at h
    · cases h
      exact Nat.succ_pos _
    · cases h

/-- The digits of a number that is not zero are not zero. -/
theorem shortestFrom_pos (m : Nat) (e : Int) (tries : Nat) (p : Int) :
    0 < (shortestFrom m e tries p).digits := by
  induction tries generalizing p with
  | zero =>
    simp only [shortestFrom, Decimal.of]
    omega
  | succ tries ih =>
    unfold shortestFrom
    split
    · rename_i c hc
      exact pick_pos hc
    · exact ih (p - 1)

theorem trimZeros_start {c : Char} (h : c ≠ '0') (cs : List Char) :
    ∃ ds, trimZeros (c :: cs) = c :: ds := by
  have hdrop : ∃ front, ((c :: cs).reverse.dropWhile (· == '0')) = front ++ [c] := by
    rw [List.reverse_cons, List.dropWhile_append]
    split
    · exact ⟨[], by simp [h]⟩
    · exact ⟨_, rfl⟩
  obtain ⟨front, hfront⟩ := hdrop
  refine ⟨front.reverse, ?_⟩
  unfold trimZeros
  rw [hfront, List.reverse_append]
  rfl

theorem mem_trimZeros {ds : List Char} {c : Char} (h : c ∈ trimZeros ds) : c = '0' ∨ c ∈ ds := by
  unfold trimZeros at h
  split at h
  · exact Or.inl (by simpa using h)
  · rw [List.mem_reverse] at h
    exact Or.inr (List.mem_reverse.mp ((List.dropWhile_sublist _).mem h))

/-- The digits of a decimal, without the zeros at their end. -/
def Decimal.shownDigits (d : Decimal) : List Char := trimZeros (Nat.toDigits 10 d.digits)

/-- An exponent of ten with its sign, in at least two digits. -/
def exponentChars (x : Int) : List Char :=
  let ds := Nat.toDigits 10 x.natAbs
  (if x < 0 then '-' else '+') :: (if ds.length < 2 then '0' :: ds else ds)

/-- The magnitude of a decimal as documents write it. -/
def Decimal.magnitude (d : Decimal) : Magnitude :=
  let ds := d.shownDigits
  if Style.document.leastPoint ≤ d.point ∧ d.point ≤ Style.document.greatestPoint then
    if d.point ≤ 0 then
      .decimal ['0'] (some (List.replicate (-d.point).toNat '0' ++ ds)) none
    else
      let part := ds.drop d.point.toNat
      .decimal (ds.take d.point.toNat ++ List.replicate (d.point.toNat - ds.length) '0')
        (some (if part.isEmpty then ['0'] else part)) none
  else
    .decimal (ds.take 1) (if ds.length ≤ 1 then none else some (ds.drop 1))
      (some ('e' :: exponentChars (d.point - 1)))

theorem document_digits (d : Decimal) :
    Style.document.digits d = Text.ofChars d.magnitude.chars := by
  have hend : Style.document.wholeEnd = Text.ofChars ['.', '0'] := rfl
  have hexp : exponentText (d.point - 1) = Text.ofChars (exponentChars (d.point - 1)) := rfl
  unfold Style.digits Decimal.magnitude
  simp only [Decimal.shownDigits, hend, hexp]
  split
  · split
    · simp [chars_decimal, fractionChars, Text.ofChars, Text.ofString]
    · split <;> rename_i hpart <;> simp only [hpart, ↓reduceIte] <;>
        simp [chars_decimal, fractionChars, Text.ofChars]
  · split <;> rename_i hpart <;> simp only [hpart, ↓reduceIte] <;>
      simp [chars_decimal, fractionChars, Text.ofChars]

theorem isExponent_exponentChars (x : Int) : isExponent (exponentChars x) = true := by
  have hds : ∀ c ∈ '0' :: Nat.toDigits 10 x.natAbs, c.isDigit = true := by
    intro c hc
    rcases List.mem_cons.mp hc with rfl | hc
    · decide
    · exact isDigit_toDigits c hc
  have hne : Nat.toDigits 10 x.natAbs ≠ [] := Nat.toDigits_ne_nil
  unfold exponentChars
  simp only
  split <;> split <;> simp [isExponent, hne] <;> intro c hc <;> exact hds c (by simp [hc])

theorem isDigit_shownDigits {d : Decimal} : ∀ c ∈ d.shownDigits, c.isDigit = true := by
  intro c hc
  rcases mem_trimZeros hc with rfl | hc
  · decide
  · exact isDigit_toDigits c hc

theorem shownDigits_ne_nil (d : Decimal) : d.shownDigits ≠ [] := by
  unfold Decimal.shownDigits trimZeros
  split
  · simp
  · assumption

theorem shownDigits_start {d : Decimal} (h : 0 < d.digits) :
    ∃ c cs, d.shownDigits = c :: cs ∧ c ≠ '0' := by
  obtain ⟨c, cs, hc, hne⟩ := toDigits_start h
  obtain ⟨ds, hds⟩ := trimZeros_start hne cs
  exact ⟨c, ds, by rw [Decimal.shownDigits, hc, hds], hne⟩

theorem magnitude_proper {d : Decimal} (h : 0 < d.digits ∨ d = { digits := 0, point := 1 }) :
    d.magnitude.Proper := by
  have hds := isDigit_shownDigits (d := d)
  have hzeros : ∀ n, ∀ c ∈ List.replicate n '0', c.isDigit = true := by
    intro n c hc
    rw [List.eq_of_mem_replicate hc]
    decide
  unfold Decimal.magnitude
  simp only
  split
  · split
    · refine ⟨hzeros 1, ?_, rfl, by simp⟩
      intro c hc
      rcases List.mem_append.mp hc with hc | hc
      · exact hzeros _ c hc
      · exact hds c hc
    · rename_i hpoint
      refine ⟨?_, ?_, ?_, by simp⟩
      · intro c hc
        rcases List.mem_append.mp hc with hc | hc
        · exact hds c (List.mem_of_mem_take hc)
        · exact hzeros _ c hc
      · intro c hc
        simp only [Option.getD_some] at hc
        split at hc
        · have hc : c = '0' := by simpa using hc
          rw [hc]
          decide
        · exact hds c (List.mem_of_mem_drop hc)
      · rcases h with h | rfl
        · obtain ⟨c, cs, hc, hne⟩ := shownDigits_start h
          obtain ⟨n, hn⟩ : ∃ n, d.point.toNat = n + 1 := ⟨d.point.toNat - 1, by omega⟩
          simp [hc, hn, isStrictWhole, hne]
        · rfl
  · obtain ⟨c, cs, hc⟩ := List.exists_cons_of_ne_nil (shownDigits_ne_nil d)
    refine ⟨?_, ?_, ?_, ?_⟩
    · intro x hx
      exact hds x (List.mem_of_mem_take hx)
    · intro x hx
      split at hx
      · simp at hx
      · exact hds x (List.mem_of_mem_drop hx)
    · simp [hc, isStrictWhole]
    · intro y hy
      cases hy
      exact ⟨'e', _, rfl, Or.inl rfl, isExponent_exponentChars _⟩

/-- The magnitude of a finite number as documents write it. -/
def finiteMagnitude (m : Nat) (e : Int) : Magnitude :=
  Decimal.magnitude (if m = 0 then { digits := 0, point := 1 } else shortest m e)

theorem finiteMagnitude_proper (m : Nat) (e : Int) : (finiteMagnitude m e).Proper := by
  apply magnitude_proper
  split
  · exact Or.inr rfl
  · exact Or.inl (shortestFrom_pos m e _ _)

theorem documented_finite (negative : Bool) (m : Nat) (e : Int) :
    (Double.finite negative m e).documented
      = signText negative ++ Text.ofChars (finiteMagnitude m e).chars := by
  simp only [documented, Style.write, document_digits, finiteMagnitude]
  cases negative <;> rfl

/-- A finite number is written so that it reads as a numeral. -/
theorem read_documented (negative : Bool) (m : Nat) (e : Int) :
    Numeral.read? (Double.finite negative m e).documented
      = some { negative, magnitude := finiteMagnitude m e } := by
  rw [documented_finite, ← numeral_text_eq { negative, magnitude := finiteMagnitude m e }]
  exact read_text (finiteMagnitude_proper m e)

end Double

end BlockScript
