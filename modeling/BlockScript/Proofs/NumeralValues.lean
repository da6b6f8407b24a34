-- What number a text spells, as a grammar with exact values, and which numeric
-- literals strict JavaScript has, as another. Reading accepts the texts of the
-- first and writes literals of the second, of the same value.
import BlockScript.Proofs.Naming
import Mathlib.Algebra.Order.Field.Power
import Mathlib.Data.Rat.Cast.Order
import Mathlib.Tactic.Ring

namespace BlockScript

/-! ## Digits -/

/-- A digit of a base up to sixteen. -/
def IsDigitOf (base : Nat) (c : Char) : Prop := ∃ d, (Glyph.char c).hexValue? = some d ∧ d < base

def digitValue (c : Char) : Nat := (Glyph.char c).hexValue?.getD 0

/-- The number that digits stand for, the highest first. -/
def digitsValue (base : Nat) (ds : List Char) : Nat :=
  ds.foldl (fun n c => base * n + digitValue c) 0

theorem le_iff_toNat (c d : Char) : c ≤ d ↔ c.toNat ≤ d.toNat := Iff.rfl

theorem isDigit_iff (c : Char) : c.isDigit = true ↔ '0' ≤ c ∧ c ≤ '9' := by
  rw [Char.isDigit, Bool.and_eq_true, decide_eq_true_eq, decide_eq_true_eq]
  exact Iff.rfl

theorem hexValue_iff (c : Char) (d : Nat) :
    (Glyph.char c).hexValue? = some d ↔
      48 ≤ c.toNat ∧ c.toNat ≤ 57 ∧ d = c.toNat - 48 ∨
      97 ≤ c.toNat ∧ c.toNat ≤ 102 ∧ d = c.toNat - 87 ∨
      65 ≤ c.toNat ∧ c.toNat ≤ 70 ∧ d = c.toNat - 55 := by
  simp only [Glyph.hexValue?, isDigit_iff, le_iff_toNat, Char.reduceToNat]
  split_ifs
  · rw [Option.some.injEq]
    omega
  · rw [Option.some.injEq]
    omega
  · rw [Option.some.injEq]
    omega
  · constructor
    · intro h
      cases h
    · omega

theorem isDigitOf_iff {base : Nat} (hbase : base ≤ 10) (c : Char) :
    IsDigitOf base c ↔ 48 ≤ c.toNat ∧ c.toNat < 48 + base := by
  simp only [IsDigitOf, hexValue_iff]
  constructor
  · rintro ⟨d, hd, hlt⟩
    omega
  · intro h
    exact ⟨c.toNat - 48, by omega, by omega⟩

theorem isDigitOf_ten (c : Char) : IsDigitOf 10 c ↔ c.isDigit = true := by
  rw [isDigitOf_iff (Nat.le_refl 10), isDigit_iff, le_iff_toNat, le_iff_toNat]
  simp only [Char.reduceToNat]
  omega

theorem areDigits_ten {ds : List Char} :
    (∀ c ∈ ds, IsDigitOf 10 c) ↔ ∀ c ∈ ds, c.isDigit = true :=
  forall₂_congr fun c _ => isDigitOf_ten c

theorem digitsValue_zero_cons (base : Nat) (ds : List Char) :
    digitsValue base ('0' :: ds) = digitsValue base ds := by
  have hzero : digitValue '0' = 0 := rfl
  simp [digitsValue, hzero]

/-- Leading zeros do not count. -/
theorem digitsValue_trim (base : Nat) (ds : List Char) :
    digitsValue base (trimLeadingZeros ds) = digitsValue base ds := by
  have hdrop : digitsValue base (ds.dropWhile (· = '0')) = digitsValue base ds := by
    induction ds with
    | nil => rfl
    | cons c ds ih =>
      by_cases hc : c = '0'
      · subst hc
        rw [List.dropWhile_cons_of_pos (by simp), ih, digitsValue_zero_cons]
      · rw [List.dropWhile_cons_of_neg (by simpa using hc)]
  unfold trimLeadingZeros
  split
  · rename_i hnil
    rw [digitsValue_zero_cons, ← hdrop, hnil]
  · exact hdrop

/-! ## Spelt numbers -/

/-- The base that a letter after a zero stands for. -/
def radixBase? (mark : Char) : Option Nat :=
  if mark ∈ ['x', 'X'] then some 16
  else if mark ∈ ['o', 'O'] then some 8
  else if mark ∈ ['b', 'B'] then some 2
  else none

theorem radixDigit_of_base {mark : Char} {base : Nat} (h : radixBase? mark = some base) :
    ∃ p, radixDigit? mark = some p ∧ ∀ c, p c = true ↔ IsDigitOf base c := by
  unfold radixBase? at h
  simp only [List.mem_cons, List.not_mem_nil, or_false] at h
  unfold radixDigit?
  split_ifs at h ⊢ <;> cases h
  · refine ⟨_, rfl, fun c => ?_⟩
    simp only [Bool.or_eq_true, Bool.and_eq_true, decide_eq_true_eq, isDigit_iff, le_iff_toNat,
      Char.reduceToNat, IsDigitOf, hexValue_iff]
    constructor
    · rintro ((h | h) | h)
      · exact ⟨c.toNat - 48, by omega, by omega⟩
      · exact ⟨c.toNat - 87, by omega, by omega⟩
      · exact ⟨c.toNat - 55, by omega, by omega⟩
    · rintro ⟨d, hd, -⟩
      omega
  · refine ⟨_, rfl, fun c => ?_⟩
    rw [isDigitOf_iff (by decide)]
    simp only [Bool.and_eq_true, decide_eq_true_eq, le_iff_toNat, Char.reduceToNat]
    omega
  · refine ⟨_, rfl, fun c => ?_⟩
    rw [isDigitOf_iff (by decide)]
    simp only [Bool.or_eq_true, decide_eq_true_eq, ← Char.toNat_inj, Char.reduceToNat]
    omega

/-- A zero, the letter of a base, and digits of that base. -/
inductive RadixLiteral : List Char → ℚ → Prop
  | digits {mark : Char} {base : Nat} {ds : List Char} (hbase : radixBase? mark = some base)
      (hne : ds ≠ []) (hds : ∀ c ∈ ds, IsDigitOf base c) :
    RadixLiteral ('0' :: mark :: ds) (digitsValue base ds)

/-- A point and the digits after it, or neither. -/
inductive FractionPart : List Char → List Char → Prop
  | absent : FractionPart [] []
  | point {ds : List Char} (hds : ∀ c ∈ ds, IsDigitOf 10 c) : FractionPart ('.' :: ds) ds

/-- A power of ten: a letter, a sign perhaps, and digits. Without one the power is zero. -/
inductive ExponentPart : List Char → ℤ → Prop
  | absent : ExponentPart [] 0
  | positive {mark : Char} {sign ds : List Char} (hmark : mark = 'e' ∨ mark = 'E')
      (hsign : sign = [] ∨ sign = ['+']) (hne : ds ≠ []) (hds : ∀ c ∈ ds, IsDigitOf 10 c) :
    ExponentPart (mark :: sign ++ ds) (digitsValue 10 ds)
  | negative {mark : Char} {ds : List Char} (hmark : mark = 'e' ∨ mark = 'E') (hne : ds ≠ [])
      (hds : ∀ c ∈ ds, IsDigitOf 10 c) :
    ExponentPart (mark :: '-' :: ds) (-(digitsValue 10 ds : ℤ))

/-- The value of a decimal from its digits before and after the point and its power of ten. -/
def decimalValue (whole fraction : List Char) (power : ℤ) : ℚ :=
  (digitsValue 10 whole + digitsValue 10 fraction / 10 ^ fraction.length) * 10 ^ power

/-- A number without its sign: with the letter of a base, or a decimal that has a digit before or
after its point. Zeros may lead. -/
inductive Unsigned : List Char → ℚ → Prop
  | radix {cs : List Char} {q : ℚ} (h : RadixLiteral cs q) : Unsigned cs q
  | decimal {whole point fraction exponent : List Char} {power : ℤ}
      (hwhole : ∀ c ∈ whole, IsDigitOf 10 c) (hpoint : FractionPart point fraction)
      (hsome : whole ≠ [] ∨ fraction ≠ []) (hexponent : ExponentPart exponent power) :
    Unsigned (whole ++ (point ++ exponent)) (decimalValue whole fraction power)

/-- The text spells a number: a sign perhaps, a number without one, and perhaps one newline. -/
def SpellsNumber (t : Text) (q : ℚ) : Prop :=
  ∃ (sign body : List Char) (m : ℚ), Unsigned body m ∧
    (t = Text.ofChars (sign ++ body) ∨ t = Text.ofChars (sign ++ body) ++ "\n") ∧
    ((sign = [] ∨ sign = ['+']) ∧ q = m ∨ sign = ['-'] ∧ q = -m)

/-! ## Literals of strict code -/

/-- A whole number of strict code: a zero alone, or digits that start with another one. -/
inductive IntegerLiteral : List Char → Prop
  | zero : IntegerLiteral ['0']
  | digits {c : Char} {ds : List Char} (hc : c ≠ '0') (hds : ∀ d ∈ c :: ds, IsDigitOf 10 d) :
    IntegerLiteral (c :: ds)

/-- The numeric literals of strict code and their values. -/
inductive StrictLiteral : List Char → ℚ → Prop
  | radix {cs : List Char} {q : ℚ} (h : RadixLiteral cs q) : StrictLiteral cs q
  | whole {whole point fraction exponent : List Char} {power : ℤ} (hwhole : IntegerLiteral whole)
      (hpoint : FractionPart point fraction) (hexponent : ExponentPart exponent power) :
    StrictLiteral (whole ++ (point ++ exponent)) (decimalValue whole fraction power)
  | fraction {fraction exponent : List Char} {power : ℤ} (hne : fraction ≠ [])
      (hds : ∀ c ∈ fraction, IsDigitOf 10 c) (hexponent : ExponentPart exponent power) :
    StrictLiteral ('.' :: fraction ++ exponent) (decimalValue [] fraction power)

/-- The text is a literal of strict code, with a minus before it for the opposite number. -/
def WritesNumber (t : Text) (q : ℚ) : Prop :=
  ∃ (literal : List Char) (m : ℚ), StrictLiteral literal m ∧
    (t = Text.ofChars literal ∧ q = m ∨ t = Text.ofChars ('-' :: literal) ∧ q = -m)

theorem areDigits_of_integerLiteral {ds : List Char} (h : IntegerLiteral ds) :
    ds ≠ [] ∧ ∀ c ∈ ds, IsDigitOf 10 c := by
  cases h with
  | zero =>
    refine ⟨by simp, ?_⟩
    intro c hc
    rw [List.mem_singleton.mp hc, isDigitOf_ten]
    rfl
  | digits hc hds => exact ⟨by simp, hds⟩

theorem unsigned_of_strictLiteral {cs : List Char} {q : ℚ} (h : StrictLiteral cs q) :
    Unsigned cs q := by
  cases h with
  | radix h => exact .radix h
  | whole hwhole hpoint hexponent =>
    obtain ⟨hne, hds⟩ := areDigits_of_integerLiteral hwhole
    exact .decimal hds hpoint (.inl hne) hexponent
  | fraction hne hds hexponent =>
    have hnone : ∀ c ∈ ([] : List Char), IsDigitOf 10 c := by simp
    exact .decimal hnone (.point hds) (.inr hne) hexponent

theorem spells_of_writes {t : Text} {q : ℚ} (h : WritesNumber t q) : SpellsNumber t q := by
  obtain ⟨literal, m, hliteral, ⟨rfl, rfl⟩ | ⟨rfl, rfl⟩⟩ := h
  · exact ⟨[], literal, q, unsigned_of_strictLiteral hliteral, .inl rfl, .inl ⟨.inl rfl, rfl⟩⟩
  · exact ⟨['-'], literal, m, unsigned_of_strictLiteral hliteral, .inl rfl, .inr ⟨rfl, rfl⟩⟩

/-! ## Values of numerals -/

/-- The power of ten of an exponent with its letter. -/
def exponentPower : List Char → ℤ
  | [] => 0
  | _ :: '-' :: ds => -(digitsValue 10 ds : ℤ)
  | _ :: '+' :: ds => digitsValue 10 ds
  | _ :: ds => digitsValue 10 ds

def Magnitude.value : Magnitude → ℚ
  | .radix mark ds => digitsValue ((radixBase? mark).getD 0) ds
  | .decimal whole part exponent =>
    decimalValue whole (part.getD []) (exponentPower (exponent.getD []))

def Numeral.value (n : Numeral) : ℚ := if n.negative then -n.magnitude.value else n.magnitude.value

theorem not_sign_of_digits {ds : List Char} (h : ∀ c ∈ ds, c.isDigit = true) (rest : List Char) :
    ds ≠ '-' :: rest ∧ ds ≠ '+' :: rest := by
  constructor
  · rintro rfl
    exact absurd (h '-' (by simp)) (by decide)
  · rintro rfl
    exact absurd (h '+' (by simp)) (by decide)

theorem exponentPower_digits (mark : Char) {ds : List Char} (h : ∀ c ∈ ds, c.isDigit = true) :
    exponentPower (mark :: ds) = digitsValue 10 ds := by
  unfold exponentPower
  split
  · rename_i heq
    cases heq
  · rename_i heq
    cases heq
    exact absurd rfl (not_sign_of_digits h _).1
  · rename_i heq
    cases heq
    exact absurd rfl (not_sign_of_digits h _).2
  · rename_i heq
    cases heq
    rfl

theorem isExponent_digits {sign ds : List Char} (hsign : sign = [] ∨ sign = ['+'] ∨ sign = ['-'])
    (hne : ds ≠ []) (h : ∀ c ∈ ds, c.isDigit = true) : isExponent (sign ++ ds) = true := by
  have hall : (!ds.isEmpty && ds.all Char.isDigit) = true := by
    simp only [Bool.and_eq_true, Bool.not_eq_true', List.isEmpty_eq_false_iff, List.all_eq_true]
    exact ⟨hne, h⟩
  rcases hsign with rfl | rfl | rfl
  · unfold isExponent
    rw [List.nil_append]
    split
    · exact absurd rfl (not_sign_of_digits h _).2
    · exact absurd rfl (not_sign_of_digits h _).1
    · exact hall
  · exact hall
  · exact hall

/-- An exponent of the grammar is one that is read, of the same power. -/
theorem exponentPart_iff {cs : List Char} {power : ℤ} :
    ExponentPart cs power ↔ ∃ x : Option (List Char), (∀ y, x = some y → IsExponentPart y) ∧
      cs = x.getD [] ∧ power = exponentPower cs := by
  constructor
  · intro h
    cases h with
    | absent => exact ⟨none, by simp, rfl, rfl⟩
    | @positive mark sign ds hmark hsign hne hds =>
      rw [areDigits_ten] at hds
      refine ⟨some (mark :: sign ++ ds), ?_, rfl, ?_⟩
      · intro y hy
        cases hy
        have hsign' : sign = [] ∨ sign = ['+'] ∨ sign = ['-'] :=
          hsign.elim .inl fun h => .inr (.inl h)
        exact ⟨mark, sign ++ ds, rfl, hmark, isExponent_digits hsign' hne hds⟩
      · rcases hsign with rfl | rfl
        · exact (exponentPower_digits mark hds).symm
        · rfl
    | @negative mark ds hmark hne hds =>
      rw [areDigits_ten] at hds
      refine ⟨some (mark :: '-' :: ds), ?_, rfl, rfl⟩
      intro y hy
      cases hy
      exact ⟨mark, ['-'] ++ ds, rfl, hmark, isExponent_digits (.inr (.inr rfl)) hne hds⟩
  · rintro ⟨x, hx, rfl, rfl⟩
    cases x with
    | none => exact .absent
    | some y =>
      obtain ⟨mark, body, rfl, hmark, hbody⟩ := hx y rfl
      obtain ⟨sign, ds, rfl, hsign, hne, hds⟩ := isExponent_cases hbody
      have hten := areDigits_ten.mpr hds
      rcases hsign with rfl | rfl | rfl
      · rw [List.nil_append, Option.getD_some, exponentPower_digits mark hds]
        exact .positive hmark (.inl rfl) hne hten
      · exact .positive hmark (.inr rfl) hne hten
      · exact .negative hmark hne hten

theorem fractionPart_iff {point fraction : List Char} :
    FractionPart point fraction ↔ ∃ part : Option (List Char),
      (∀ c ∈ part.getD [], c.isDigit = true) ∧ point = fractionChars part ∧
      fraction = part.getD [] := by
  constructor
  · intro h
    cases h with
    | absent => exact ⟨none, by simp, rfl, rfl⟩
    | point hds => exact ⟨some fraction, areDigits_ten.mp hds, rfl, rfl⟩
  · rintro ⟨part, hpart, rfl, rfl⟩
    cases part with
    | none => exact .absent
    | some ds => exact .point (areDigits_ten.mpr hpart)

/-! ## Reading keeps the value -/

/-- The digits before a point, as they are kept. -/
def keptWhole (whole : List Char) : List Char :=
  if whole.isEmpty then [] else trimLeadingZeros whole

theorem digitsValue_keptWhole (whole : List Char) :
    digitsValue 10 (keptWhole whole) = digitsValue 10 whole := by
  unfold keptWhole
  split
  · rename_i h
    rw [List.isEmpty_iff.mp h]
  · exact digitsValue_trim 10 whole

section Decimals

variable {whole : List Char} {part x : Option (List Char)}

theorem readDecimal_parts (hwhole : ∀ c ∈ whole, c.isDigit = true)
    (hpart : ∀ c ∈ part.getD [], c.isDigit = true) (hsome : whole ≠ [] ∨ part.getD [] ≠ [])
    (hexp : ∀ y, x = some y → IsExponentPart y) :
    Magnitude.readDecimal? (whole ++ (fractionChars part ++ x.getD []))
      = some (.decimal (keptWhole whole) part x) := by
  have hstop : ∀ c, (fractionChars part ++ x.getD []).head? = some c → c.isDigit = false := by
    intro c hc
    rcases head_fraction_exponent hexp hc with rfl | rfl | rfl <;> decide
  obtain ⟨htake, hdrop⟩ := takeWhile_append_stop hwhole hstop
  rw [readDecimal_eq, htake, hdrop, readFraction_chars hpart hexp, readNumeralExponent_chars hexp]
  by_cases hnil : whole = []
  · subst hnil
    have hne : part.getD [] ≠ [] := hsome.resolve_left (by simp)
    simp [hne, keptWhole]
  · simp [hnil, keptWhole]

/-- A decimal is not taken for a number with the letter of a base, also with leading zeros. -/
theorem readRadix_parts (hwhole : ∀ c ∈ whole, c.isDigit = true)
    (hexp : ∀ y, x = some y → IsExponentPart y) :
    Magnitude.readRadix? (whole ++ (fractionChars part ++ x.getD [])) = none := by
  unfold Magnitude.readRadix?
  split
  · rename_i mark digits heq
    have hmark : radixDigit? mark = none := by
      rcases whole with _ | ⟨c, _ | ⟨d, cs⟩⟩
      · have hhead : (fractionChars part ++ x.getD []).head? = some '0' := by
          rw [List.nil_append] at heq
          simp [heq]
        rcases head_fraction_exponent hexp hhead with h0 | h0 | h0 <;> exact absurd h0 (by decide)
      · simp only [List.cons_append, List.nil_append, List.cons.injEq] at heq
        have hhead : (fractionChars part ++ x.getD []).head? = some mark := by simp [heq.2]
        rcases head_fraction_exponent hexp hhead with rfl | rfl | rfl <;> decide
      · simp only [List.cons_append, List.cons.injEq] at heq
        have hdigit : mark.isDigit = true := heq.2.1 ▸ hwhole d (by simp)
        have hletter : ∀ c, c.isDigit = false → mark ≠ c := fun c hc => ne_of_class hdigit hc
        simp [radixDigit?, hletter]
    simp [hmark]
  · rfl

end Decimals

theorem reads_of_unsigned {cs : List Char} {q : ℚ} (h : Unsigned cs q) :
    ∃ m, (Magnitude.readRadix? cs).or (Magnitude.readDecimal? cs) = some m ∧ m.value = q := by
  cases h with
  | radix h =>
    obtain @⟨mark, base, ds, hbase, hne, hds⟩ := h
    obtain ⟨p, hp, hiff⟩ := radixDigit_of_base hbase
    refine ⟨.radix mark ds, ?_, by simp [Magnitude.value, hbase]⟩
    have hproper : (Magnitude.radix mark ds).Proper :=
      ⟨p, hp, hne, fun c hc => (hiff c).mpr (hds c hc)⟩
    have hread := readRadix_chars hproper
    rw [Magnitude.chars] at hread
    rw [hread, Option.some_or]
  | @decimal whole _ _ _ _ hwhole hpoint hsome hexponent =>
    rw [areDigits_ten] at hwhole
    obtain ⟨part, hpart, rfl, rfl⟩ := fractionPart_iff.mp hpoint
    obtain ⟨x, hx, rfl, rfl⟩ := exponentPart_iff.mp hexponent
    refine ⟨.decimal (keptWhole whole) part x, ?_, ?_⟩
    · rw [readRadix_parts hwhole hx, readDecimal_parts hwhole hpart hsome hx, Option.none_or]
    · rw [Magnitude.value, decimalValue, digitsValue_keptWhole, decimalValue]

theorem radixBase_of_digit {mark : Char} {p : Char → Bool} (h : radixDigit? mark = some p) :
    ∃ base, radixBase? mark = some base ∧ ∀ c, p c = true ↔ IsDigitOf base c := by
  have hsome : (radixBase? mark).isSome = true := by
    unfold radixDigit? at h
    unfold radixBase?
    simp only [List.mem_cons, List.not_mem_nil, or_false]
    split_ifs at h ⊢ <;> rfl
  obtain ⟨base, hbase⟩ := Option.isSome_iff_exists.mp hsome
  obtain ⟨q, hq, hiff⟩ := radixDigit_of_base hbase
  rw [h] at hq
  cases hq
  exact ⟨base, hbase, hiff⟩

theorem unsigned_of_readRadix {cs : List Char} {m : Magnitude}
    (h : Magnitude.readRadix? cs = some m) : Unsigned cs m.value := by
  unfold Magnitude.readRadix? at h
  split at h
  · rename_i mark ds
    split at h
    · rename_i p hp
      split at h
      · rename_i hall
        cases h
        obtain ⟨base, hbase, hiff⟩ := radixBase_of_digit hp
        simp only [Bool.and_eq_true, Bool.not_eq_true', List.isEmpty_eq_false_iff,
          List.all_eq_true] at hall
        have hliteral : RadixLiteral ('0' :: mark :: ds) (digitsValue base ds) :=
          .digits hbase hall.1 fun c hc => (hiff c).mp (hall.2 c hc)
        rw [Magnitude.value, hbase, Option.getD_some]
        exact .radix hliteral
      · cases h
    · cases h
  · cases h

theorem readFraction_parts (cs : List Char) :
    cs = fractionChars (readFraction cs).1 ++ (readFraction cs).2 := by
  unfold readFraction
  split
  · simp [fractionChars]
  · rfl

theorem readNumeralExponent_getD {cs : List Char} {x : Option (List Char)}
    (h : readNumeralExponent? cs = some x) : cs = x.getD [] := by
  unfold readNumeralExponent? at h
  split at h
  · cases h
    rfl
  · split at h
    · cases h
      rfl
    · cases h

theorem unsigned_of_readDecimal {cs : List Char} {m : Magnitude}
    (h : Magnitude.readDecimal? cs = some m) : Unsigned cs m.value := by
  rw [readDecimal_eq, Option.bind_eq_some_iff] at h
  obtain ⟨x, hx, h⟩ := h
  have hparts : cs = cs.takeWhile Char.isDigit
      ++ (fractionChars (readFraction (cs.dropWhile Char.isDigit)).1 ++ x.getD []) := by
    rw [← readNumeralExponent_getD hx, ← readFraction_parts, List.takeWhile_append_dropWhile]
  have hwhole : ∀ c ∈ cs.takeWhile Char.isDigit, c.isDigit = true := fun c =>
    mem_takeWhile_isDigit
  have hpart := readFraction_digits (cs.dropWhile Char.isDigit)
  have hpoint := fractionPart_iff.mpr ⟨_, hpart, rfl, rfl⟩
  have hexponent := exponentPart_iff.mpr ⟨x, readNumeralExponent_proper hx, rfl, rfl⟩
  -- From here on only the parts count, not how they were found.
  generalize cs.takeWhile Char.isDigit = whole at *
  generalize (readFraction (cs.dropWhile Char.isDigit)).1 = part at *
  have hmade : ∀ hsome : whole ≠ [] ∨ part.getD [] ≠ [],
      m = .decimal (keptWhole whole) part x → Unsigned cs m.value := by
    rintro hsome rfl
    rw [Magnitude.value, decimalValue, digitsValue_keptWhole, ← decimalValue, hparts]
    exact .decimal (areDigits_ten.mpr hwhole) hpoint hsome hexponent
  simp only at h
  split at h
  · rename_i hnil
    split at h
    · cases h
    · rename_i hne
      cases h
      refine hmade (.inr (by simpa using hne)) ?_
      simp [keptWhole, List.isEmpty_iff.mp hnil]
  · rename_i hne
    cases h
    refine hmade (.inl (by simpa using hne)) ?_
    simp [keptWhole, show whole ≠ [] by simpa using hne]

theorem unsigned_iff {cs : List Char} {q : ℚ} :
    Unsigned cs q ↔ ∃ m, (Magnitude.readRadix? cs).or (Magnitude.readDecimal? cs) = some m ∧
      m.value = q := by
  constructor
  · exact reads_of_unsigned
  · rintro ⟨m, hm, rfl⟩
    rcases Option.or_eq_some_iff.mp hm with hm | ⟨-, hm⟩
    · exact unsigned_of_readRadix hm
    · exact unsigned_of_readDecimal hm

/-! ## Signs and newlines -/

/-- A spelling of a sign: nothing and a plus mean the same. -/
def IsSign (negative : Bool) (sign : List Char) : Prop :=
  if negative then sign = ['-'] else sign = [] ∨ sign = ['+']

theorem unsigned_start {cs : List Char} {q : ℚ} (h : Unsigned cs q) :
    ∃ c rest, cs = c :: rest ∧ (c.isDigit = true ∨ c = '.') := by
  cases h with
  | radix h =>
    cases h
    exact ⟨'0', _, rfl, .inl (by decide)⟩
  | @decimal whole _ _ exponent _ hwhole hpoint hsome hexponent =>
    cases whole with
    | cons c ds => exact ⟨c, _, rfl, .inl (areDigits_ten.mp hwhole c (by simp))⟩
    | nil =>
      cases hpoint with
      | absent => simp at hsome
      | point hds => exact ⟨'.', _, rfl, .inr rfl⟩

theorem newline_not_mem_digits {base : Nat} {ds : List Char} (h : ∀ c ∈ ds, IsDigitOf base c) :
    '\n' ∉ ds := by
  intro hmem
  obtain ⟨d, hd, -⟩ := h _ hmem
  cases hd

theorem newline_not_mem_exponent {cs : List Char} {power : ℤ} (h : ExponentPart cs power) :
    '\n' ∉ cs := by
  cases h with
  | absent => simp
  | positive hmark hsign hne hds =>
    have hds := newline_not_mem_digits hds
    rcases hmark with rfl | rfl <;> rcases hsign with rfl | rfl <;> simpa using hds
  | negative hmark hne hds =>
    have hds := newline_not_mem_digits hds
    rcases hmark with rfl | rfl <;> simpa using hds

theorem newline_not_mem_unsigned {cs : List Char} {q : ℚ} (h : Unsigned cs q) : '\n' ∉ cs := by
  cases h with
  | radix h =>
    obtain @⟨mark, base, ds, hbase, hne, hds⟩ := h
    have hds := newline_not_mem_digits hds
    have hmark : '\n' ≠ mark := by
      rintro rfl
      cases hbase
    simp [hds, hmark]
  | decimal hwhole hpoint hsome hexponent =>
    have hwhole := newline_not_mem_digits hwhole
    have hexponent := newline_not_mem_exponent hexponent
    cases hpoint with
    | absent => simp [hwhole, hexponent]
    | point hds => simp [hwhole, hexponent, newline_not_mem_digits hds]

theorem readSign_parts (cs : List Char) :
    ∃ sign, IsSign (readSign cs).1 sign ∧ cs = sign ++ (readSign cs).2 := by
  unfold readSign
  split
  · exact ⟨['-'], rfl, rfl⟩
  · exact ⟨['+'], .inr rfl, rfl⟩
  · exact ⟨[], .inl rfl, rfl⟩

theorem readSign_append {negative : Bool} {sign body : List Char} {q : ℚ}
    (hsign : IsSign negative sign) (h : Unsigned body q) :
    readSign (sign ++ body) = (negative, body) := by
  obtain ⟨c, rest, rfl, hc⟩ := unsigned_start h
  cases negative with
  | true =>
    obtain rfl : sign = ['-'] := hsign
    rfl
  | false =>
    rcases hsign with rfl | rfl
    · have hminus : c ≠ '-' := by
        rintro rfl
        revert hc
        decide
      have hplus : c ≠ '+' := by
        rintro rfl
        revert hc
        decide
      simp [readSign, hminus, hplus]
    · rfl

theorem eq_ofChars_of_chars {t : Text} {cs : List Char} (h : t.chars? = some cs) :
    t = Text.ofChars cs := by
  induction t generalizing cs with
  | nil =>
    cases h
    rfl
  | cons g t ih =>
    cases g with
    | half n => cases h
    | char c =>
      obtain ⟨ds, hds, rfl⟩ := Option.map_eq_some_iff.mp h
      rw [ih hds]
      rfl

/-- Reading takes a text apart into a sign, a number without one, and perhaps a newline. -/
theorem read_iff {t : Text} {n : Numeral} :
    Numeral.read? t = some n ↔ ∃ sign body : List Char, IsSign n.negative sign ∧
      (t = Text.ofChars (sign ++ body) ∨ t = Text.ofChars (sign ++ body) ++ "\n") ∧
      (Magnitude.readRadix? body).or (Magnitude.readDecimal? body) = some n.magnitude := by
  rw [read_eq, Option.bind_eq_some_iff]
  constructor
  · rintro ⟨cs, hcs, h⟩
    obtain ⟨m, hm, rfl⟩ := Option.map_eq_some_iff.mp h
    obtain ⟨sign, hsign, heq⟩ := readSign_parts cs
    refine ⟨sign, (readSign cs).2, hsign, ?_, hm⟩
    rw [← heq, ← eq_ofChars_of_chars hcs]
    exact eq_dropFinalNewline t
  · rintro ⟨sign, body, hsign, ht, hm⟩
    have hbody : Unsigned body n.magnitude.value := unsigned_iff.mpr ⟨_, hm, rfl⟩
    have hline : .char '\n' ∉ Text.ofChars (sign ++ body) := by
      have hbody := newline_not_mem_unsigned hbody
      have hnosign : '\n' ∉ sign := by
        unfold IsSign at hsign
        split at hsign
        · simp [hsign]
        · rcases hsign with rfl | rfl <;> simp
      simp [Text.ofChars, hbody, hnosign]
    have hdrop : t.dropFinalNewline = Text.ofChars (sign ++ body) := by
      rcases ht with rfl | rfl
      · exact dropFinalNewline_eq hline
      · exact dropFinalNewline_append _
    refine ⟨sign ++ body, by rw [hdrop, chars_ofChars], ?_⟩
    rw [readSign_append hsign hbody, hm]
    rfl

theorem spells_iff {t : Text} {q : ℚ} :
    SpellsNumber t q ↔ ∃ n, Numeral.read? t = some n ∧ n.value = q := by
  constructor
  · rintro ⟨sign, body, m, hbody, ht, hsign⟩
    obtain ⟨magnitude, hread, rfl⟩ := unsigned_iff.mp hbody
    rcases hsign with ⟨hsign, rfl⟩ | ⟨hsign, rfl⟩
    · exact ⟨⟨false, magnitude⟩, read_iff.mpr ⟨sign, body, hsign, ht, hread⟩, rfl⟩
    · exact ⟨⟨true, magnitude⟩, read_iff.mpr ⟨sign, body, hsign, ht, hread⟩, rfl⟩
  · rintro ⟨⟨negative, magnitude⟩, hn, rfl⟩
    obtain ⟨sign, body, hsign, ht, hread⟩ := read_iff.mp hn
    refine ⟨sign, body, _, unsigned_iff.mpr ⟨_, hread, rfl⟩, ht, ?_⟩
    cases negative with
    | true => exact .inr ⟨hsign, rfl⟩
    | false => exact .inl ⟨hsign, rfl⟩

/-- A numeral is negative if the text it was read from starts with a minus. -/
theorem head_of_read {t : Text} {n : Numeral} (h : Numeral.read? t = some n) :
    t.head? = some (.char '-') ↔ n.negative = true := by
  obtain ⟨sign, body, hsign, ht, hread⟩ := read_iff.mp h
  obtain ⟨c, rest, rfl, hc⟩ := unsigned_start (unsigned_iff.mpr ⟨_, hread, rfl⟩)
  have hhead : t.head? = (Text.ofChars (sign ++ c :: rest)).head? := by
    rcases ht with rfl | rfl
    · rfl
    · cases sign <;> rfl
  have hminus : c ≠ '-' := by
    rintro rfl
    revert hc
    decide
  rw [hhead]
  cases hneg : n.negative with
  | true =>
    rw [hneg] at hsign
    obtain rfl : sign = ['-'] := hsign
    simp [Text.ofChars]
  | false =>
    rw [hneg] at hsign
    rcases hsign with rfl | rfl
    · simp [Text.ofChars, hminus]
    · simp [Text.ofChars]

/-! ## Writing keeps the value -/

theorem integerLiteral_of_strict {c : Char} {cs : List Char} {part : Option (List Char)}
    (hds : ∀ d ∈ c :: cs, d.isDigit = true) (h : isStrictWhole (c :: cs) part = true) :
    IntegerLiteral (c :: cs) := by
  simp only [isStrictWhole, ne_eq, Bool.or_eq_true, decide_eq_true_eq, List.isEmpty_iff] at h
  by_cases hc : c = '0'
  · have hcs : cs = [] := h.resolve_left (by simpa using hc)
    rw [hc, hcs]
    exact .zero
  · exact .digits hc (areDigits_ten.mpr hds)

theorem strictLiteral_of_proper {m : Magnitude} (h : m.Proper) :
    StrictLiteral m.chars m.value := by
  cases m with
  | radix mark ds =>
    obtain ⟨p, hp, hne, hds⟩ := h
    obtain ⟨base, hbase, hiff⟩ := radixBase_of_digit hp
    rw [Magnitude.value, hbase]
    exact .radix (.digits hbase hne fun c hc => (hiff c).mp (hds c hc))
  | decimal whole part x =>
    obtain ⟨hwhole, hpart, hstrict, hexp⟩ := h
    have hexponent := exponentPart_iff.mpr ⟨x, hexp, rfl, rfl⟩
    rw [chars_decimal, Magnitude.value]
    cases whole with
    | cons c cs =>
      have hpoint := fractionPart_iff.mpr ⟨part, hpart, rfl, rfl⟩
      exact .whole (integerLiteral_of_strict hwhole hstrict) hpoint hexponent
    | nil =>
      cases part with
      | none => simp [isStrictWhole] at hstrict
      | some ds =>
        have hne : ds ≠ [] := by simpa [isStrictWhole] using hstrict
        exact .fraction hne (areDigits_ten.mpr hpart) hexponent

theorem writes_text {n : Numeral} (h : n.magnitude.Proper) : WritesNumber n.text n.value := by
  refine ⟨n.magnitude.chars, n.magnitude.value, strictLiteral_of_proper h, ?_⟩
  unfold Numeral.text Numeral.value
  cases n.negative with
  | true => exact .inr ⟨rfl, rfl⟩
  | false => exact .inl ⟨rfl, rfl⟩

/-- A text is read as a numeral if and only if it spells a number. The numeral is written as a
literal of strict code for just that number, with a minus if the text has one, and reading the
literal gives the numeral again. -/
theorem numerals_are_strict_literals_of_the_numbers_spelt (t : Text) :
    ((Numeral.read? t).isSome = true ↔ ∃ q, SpellsNumber t q) ∧
    ∀ n, Numeral.read? t = some n →
      (∃ q, (∀ p, SpellsNumber t p ↔ p = q) ∧ ∀ p, WritesNumber n.text p ↔ p = q) ∧
      (n.text.head? = some (.char '-') ↔ t.head? = some (.char '-')) ∧
      Numeral.read? n.text = some n := by
  constructor
  · rw [Option.isSome_iff_exists]
    constructor
    · rintro ⟨n, hn⟩
      exact ⟨n.value, spells_iff.mpr ⟨n, hn, rfl⟩⟩
    · rintro ⟨q, hq⟩
      obtain ⟨n, hn, -⟩ := spells_iff.mp hq
      exact ⟨n, hn⟩
  · intro n hn
    have hagain := read_text (read_proper hn)
    -- Both texts are read as one numeral, so neither has a second value.
    have hunique : ∀ {u : Text} {p : ℚ}, Numeral.read? u = some n → SpellsNumber u p →
        p = n.value := by
      intro u p hu hp
      obtain ⟨m, hm, rfl⟩ := spells_iff.mp hp
      rw [hu] at hm
      cases hm
      rfl
    refine ⟨⟨n.value, ?_, ?_⟩, ?_, hagain⟩
    · intro p
      constructor
      · exact hunique hn
      · rintro rfl
        exact spells_iff.mpr ⟨n, hn, rfl⟩
    · intro p
      constructor
      · intro hp
        exact hunique hagain (spells_of_writes hp)
      · rintro rfl
        exact writes_text (read_proper hn)
    · rw [head_of_read hagain, head_of_read hn]

example : (Numeral.read? "+007.50e-2\n").map Numeral.text = some "7.50e-2" := by decide

example : (Numeral.read? "-0XfF").map Numeral.text = some "-0XfF" := by decide

end BlockScript
