-- Numbers of documents, read back. A whole number is read as itself, and a
-- double is read as itself from the digits that it was written with, wherever
-- they have their point.
import BlockScript.Json.Reader
import BlockScript.Proofs.Numerals
import BlockScript.Proofs.ShortestDigits
import Mathlib.Data.List.TakeWhile

namespace BlockScript

/-! ## Digits -/

theorem natOfDigits_toDigits (n : Nat) : Text.natOfDigits (Nat.toDigits 10 n) = n :=
  Nat.ofDigitChars_ten_toDigits

theorem natOfDigits_append (ds es : List Char) :
    Text.natOfDigits (ds ++ es) = 10 ^ es.length * Text.natOfDigits ds + Text.natOfDigits es := by
  change Nat.ofDigitChars 10 (ds ++ es) 0
    = 10 ^ es.length * Nat.ofDigitChars 10 ds 0 + Nat.ofDigitChars 10 es 0
  rw [Nat.ofDigitChars_append, Nat.ofDigitChars_eq_ofDigitChars_zero]

theorem natOfDigits_zeros (n : Nat) : Text.natOfDigits (List.replicate n '0') = 0 := by
  change Nat.ofDigitChars 10 (List.replicate n '0') 0 = 0
  rw [Nat.ofDigitChars_replicate_zero, Nat.mul_zero]

/-- The text does not go on with a number. -/
def EndsNumber (rest : Text) : Prop :=
  Text.opens (fun c => c.isDigit || c == '.' || c == 'e' || c == 'E') rest = false

theorem EndsNumber.not_digit {rest : Text} (h : EndsNumber rest) :
    Text.opens Char.isDigit rest = false :=
  not_opens_of_imp (fun c hc => by simp [hc]) h

theorem digitsOf_ofChars {ds : List Char} (h : ∀ c ∈ ds, c.isDigit = true) {rest : Text}
    (hrest : Text.opens Char.isDigit rest = false) : digitsOf (Text.ofChars ds ++ rest) = ds := by
  induction ds with
  | nil =>
    cases rest with
    | nil => rfl
    | cons g more =>
      cases g with
      | half n => rfl
      | char c =>
        have hc : c.isDigit = false := hrest
        simp [digitsOf, Text.ofChars, Glyph.isDigit, hc]
  | cons c ds ih =>
    have hc := h c (by simp)
    have ih := ih fun d hd => h d (by simp [hd])
    simp only [digitsOf, Text.ofChars] at ih ⊢
    simp [Glyph.isDigit, hc, ih]

theorem drop_ofChars (ds : List Char) (rest : Text) :
    (Text.ofChars ds ++ rest).drop ds.length = rest := by
  simp [Text.ofChars]

/-! ## Parts of a number -/

theorem readFraction_ofChars {part : List Char} (hne : part ≠ [])
    (h : ∀ c ∈ part, c.isDigit = true) {rest : Text}
    (hrest : Text.opens Char.isDigit rest = false) :
    readFraction? (Text.ofChars ('.' :: part) ++ rest) = some (part, rest) := by
  have hdigits := digitsOf_ofChars h hrest
  change (if (digitsOf (Text.ofChars part ++ rest)).isEmpty then none
    else some (digitsOf (Text.ofChars part ++ rest),
      (Text.ofChars part ++ rest).drop (digitsOf (Text.ofChars part ++ rest)).length)) = _
  rw [hdigits, drop_ofChars, if_neg (by simpa using hne)]

theorem readFraction_none {rest : Text} (h : Text.opens (· == '.') rest = false) :
    readFraction? rest = none := by
  unfold readFraction?
  split
  · simp [Text.opens] at h
  · rfl

theorem readJsonExponent_none {rest : Text} (h : EndsNumber rest) :
    readJsonExponent? rest = none := by
  unfold readJsonExponent?
  split
  · rename_i c more
    have hc : (c.isDigit || c == '.' || c == 'e' || c == 'E') = false := h
    simp only [Bool.or_eq_false_iff, beq_eq_false_iff_ne] at hc
    rw [if_neg (by simp [hc])]
  · rfl

theorem readJsonExponent_chars (x : Int) {rest : Text}
    (hrest : Text.opens Char.isDigit rest = false) :
    readJsonExponent? (Text.ofChars ('e' :: Double.exponentChars x) ++ rest) = some (x, rest) := by
  obtain ⟨ds, hne, hds, hvalue, hchars⟩ : ∃ ds : List Char, ds ≠ [] ∧
      (∀ c ∈ ds, c.isDigit = true) ∧ Text.natOfDigits ds = x.natAbs ∧
      Double.exponentChars x = (if x < 0 then '-' else '+') :: ds := by
    unfold Double.exponentChars
    simp only
    by_cases hshort : (Nat.toDigits 10 x.natAbs).length < 2
    · rw [if_pos hshort]
      refine ⟨'0' :: Nat.toDigits 10 x.natAbs, by simp, ?_, natOfDigits_toDigits x.natAbs, rfl⟩
      intro c hc
      rcases List.mem_cons.mp hc with rfl | hc
      · decide
      · exact isDigit_toDigits c hc
    · rw [if_neg hshort]
      exact ⟨_, Nat.toDigits_ne_nil, isDigit_toDigits, natOfDigits_toDigits x.natAbs, rfl⟩
  have hdigits := digitsOf_ofChars hds hrest
  rw [hchars]
  by_cases hx : x < 0
  · rw [if_pos hx]
    change (if (digitsOf (Text.ofChars ds ++ rest)).isEmpty then none
      else some (-(Text.natOfDigits (digitsOf (Text.ofChars ds ++ rest)) : Int),
        (Text.ofChars ds ++ rest).drop (digitsOf (Text.ofChars ds ++ rest)).length)) = _
    rw [hdigits, drop_ofChars, if_neg (by simpa using hne), hvalue]
    congr 2
    omega
  · rw [if_neg hx]
    change (if (digitsOf (Text.ofChars ds ++ rest)).isEmpty then none
      else some ((Text.natOfDigits (digitsOf (Text.ofChars ds ++ rest)) : Int),
        (Text.ofChars ds ++ rest).drop (digitsOf (Text.ofChars ds ++ rest)).length)) = _
    rw [hdigits, drop_ofChars, if_neg (by simpa using hne), hvalue]
    congr 2
    omega

/-- A number from its sign, the digits of its whole part, and what follows them. -/
def numberOf (negative : Bool) (whole : List Char) (more : Text) :
    Except JsonStop (Json × Text) :=
  let fraction := readFraction? more
  let afterFraction := (fraction.map (·.2)).getD more
  let exponent := readJsonExponent? afterFraction
  let afterAll := (exponent.map (·.2)).getD afterFraction
  if fraction.isNone && exponent.isNone then
    if whole.length > Text.digitLimit then .error (.tooLong whole.length)
    else
      let n : Int := Text.natOfDigits whole
      .ok (.int (if negative then -n else n), afterAll)
  else
    let part := (fraction.map (·.1)).getD []
    let x := (exponent.map (·.1)).getD 0
    .ok (.double (Double.ofDecimal negative (Text.natOfDigits (whole ++ part)) (x - part.length)),
      afterAll)

/-- A whole part is read up to its end, unless it goes on after a leading zero. -/
theorem readNumber_eq (negative : Bool) {whole : List Char} (hne : whole ≠ [])
    (h : ∀ c ∈ whole, c.isDigit = true) (hzero : whole.head? = some '0' → whole = ['0'])
    {more : Text} (hmore : Text.opens Char.isDigit more = false) :
    readNumber (signText negative ++ (Text.ofChars whole ++ more))
      = numberOf negative whole more := by
  have hdigits := digitsOf_ofChars h hmore
  have hds : (if whole.head? = some '0' then ['0'] else whole) = whole := by
    split
    · rename_i hhead
      exact (hzero hhead).symm
    · rfl
  have hwhole : whole.isEmpty = false := by simpa using hne
  cases negative with
  | true =>
    change readNumber (.char '-' :: (Text.ofChars whole ++ more)) = _
    unfold readNumber numberOf
    simp only [hdigits, hds, hwhole, drop_ofChars]
    rfl
  | false =>
    obtain ⟨c, cs, rfl⟩ := List.exists_cons_of_ne_nil hne
    have hc : c ≠ '-' := ne_of_class (h c (by simp)) (by decide)
    change readNumber (Text.ofChars (c :: cs) ++ more) = _
    unfold readNumber numberOf
    split
    rename_i hsign
    split at hsign
    · rename_i heq
      cases heq
      exact absurd rfl hc
    · cases hsign
      simp only [hdigits, hds, hwhole, drop_ofChars]
      rfl

/-! ## Whole numbers -/

theorem toDigits_zero_start {n : Nat} (h : (Nat.toDigits 10 n).head? = some '0') :
    Nat.toDigits 10 n = ['0'] := by
  rcases Nat.eq_zero_or_pos n with rfl | hn
  · rfl
  · obtain ⟨c, cs, hc, hne⟩ := toDigits_start hn
    rw [hc] at h
    exact absurd (Option.some.inj h) hne

/-- A whole number is read back, if it does not have too many digits. -/
theorem readNumber_ofInt {n : Int} (hlimit : (Nat.toDigits 10 n.natAbs).length ≤ Text.digitLimit)
    {rest : Text} (hrest : EndsNumber rest) :
    readNumber (Text.ofInt n ++ rest) = .ok (.int n, rest) := by
  have hpoint : Text.opens (· == '.') rest = false :=
    not_opens_of_imp (fun c hc => by simp [beq_iff_eq.mp hc]) hrest
  rw [ofInt_eq, List.append_assoc, readNumber_eq _ Nat.toDigits_ne_nil isDigit_toDigits
    toDigits_zero_start hrest.not_digit]
  unfold numberOf
  simp only [readFraction_none hpoint, Option.map_none, Option.getD_none,
    readJsonExponent_none hrest, Option.isNone_none, Bool.and_self, if_true,
    if_neg (Nat.not_lt.mpr hlimit), natOfDigits_toDigits]
  congr 3
  by_cases hn : n < 0
  · simp only [hn, decide_true, if_true]
    omega
  · simp only [hn, decide_false, Bool.false_eq_true, if_false]
    omega

/-! ## Doubles -/

/-- A decimal with a fraction or an exponent is read as the double nearest to it. -/
theorem readNumber_decimal (negative : Bool) (whole : List Char) (part : Option (List Char))
    (x : Option Int) (hne : whole ≠ []) (hwhole : ∀ c ∈ whole, c.isDigit = true)
    (hzero : whole.head? = some '0' → whole = ['0'])
    (hpart : ∀ ds ∈ part, ds ≠ [] ∧ ∀ c ∈ ds, c.isDigit = true)
    (hdouble : part.isSome = true ∨ x.isSome = true) {rest : Text} (hrest : EndsNumber rest) :
    readNumber (signText negative ++ (Text.ofChars (Magnitude.decimal whole part
        (x.map fun x => 'e' :: Double.exponentChars x)).chars ++ rest))
      = .ok (.double (Double.ofDecimal negative (Text.natOfDigits (whole ++ part.getD []))
          (x.getD 0 - (part.getD []).length)), rest) := by
  have hpoint : Text.opens (· == '.') rest = false :=
    not_opens_of_imp (fun c hc => by simp [beq_iff_eq.mp hc]) hrest
  -- what follows the fraction is the exponent, or the rest
  have hexponent : readJsonExponent? (Text.ofChars
      ((x.map fun x => 'e' :: Double.exponentChars x).getD []) ++ rest) = x.map (·, rest) := by
    cases x with
    | none => exact readJsonExponent_none hrest
    | some x => exact readJsonExponent_chars x hrest.not_digit
  have hafter : ∀ {q : Char → Bool}, q 'e' = false → Text.opens q rest = false →
      Text.opens q (Text.ofChars ((x.map fun x => 'e' :: Double.exponentChars x).getD []) ++ rest)
        = false := by
    intro q hq hqrest
    cases x with
    | none => exact hqrest
    | some x => exact hq
  rw [chars_decimal, ofChars_append, List.append_assoc]
  rw [readNumber_eq negative hne hwhole hzero]
  · rw [ofChars_append, List.append_assoc]
    unfold numberOf
    cases part with
    | none =>
      have hx := hdouble.resolve_left (by simp)
      obtain ⟨x, rfl⟩ := Option.isSome_iff_exists.mp hx
      simp only [fractionChars, Text.ofChars, List.map_nil, List.nil_append] at hexponent hafter ⊢
      rw [readFraction_none (hafter (by decide) hpoint)]
      simp only [Option.map_none, Option.getD_none, hexponent]
      rfl
    | some ds =>
      obtain ⟨hds, hdigits⟩ := hpart ds rfl
      rw [fractionChars, readFraction_ofChars hds hdigits (hafter (by decide) hrest.not_digit)]
      simp only [Option.map_some, Option.getD_some, hexponent]
      cases x <;> rfl
  · cases part with
    | none =>
      rw [fractionChars, List.nil_append]
      exact hafter (by decide) hrest.not_digit
    | some ds => rfl

namespace Double

/-- The zeros that are left out at the end of digits. -/
theorem exists_zeros_trimZeros {ds : List Char} (h : ∃ c ∈ ds, c ≠ '0') :
    ∃ k, ds = trimZeros ds ++ List.replicate k '0' := by
  have hne : (ds.reverse.dropWhile (· == '0')).reverse ≠ [] := by
    obtain ⟨c, hc, hzero⟩ := h
    simp only [ne_eq, List.reverse_eq_nil_iff, List.dropWhile_eq_nil_iff, not_forall]
    exact ⟨c, List.mem_reverse.mpr hc, by simpa using hzero⟩
  have htrim : trimZeros ds = (ds.reverse.dropWhile (· == '0')).reverse := by
    unfold trimZeros
    split
    · exact absurd ‹_› hne
    · rfl
  have hzeros : (ds.reverse.takeWhile (· == '0')).reverse
      = List.replicate (ds.reverse.takeWhile (· == '0')).length '0' := by
    rw [List.eq_replicate_iff]
    refine ⟨List.length_reverse, fun c hc => ?_⟩
    simpa using List.mem_takeWhile_imp (List.mem_reverse.mp hc)
  refine ⟨(ds.reverse.takeWhile (· == '0')).length, ?_⟩
  rw [htrim, ← hzeros, ← List.reverse_append, List.takeWhile_append_dropWhile, List.reverse_reverse]

/-- The digits that are shown, with the place of the point, are the value of a decimal. -/
theorem shownDigits_value {c : Nat} (hc : 0 < c) (p : Int) :
    (Text.natOfDigits (Decimal.of c p).shownDigits : ℚ)
        * 10 ^ ((Decimal.of c p).point - (Decimal.of c p).shownDigits.length)
      = c * 10 ^ p := by
  obtain ⟨k, hk⟩ : ∃ k, Nat.toDigits 10 c
      = trimZeros (Nat.toDigits 10 c) ++ List.replicate k '0' := by
    apply exists_zeros_trimZeros
    obtain ⟨d, ds, hds, hne⟩ := toDigits_start hc
    exact ⟨d, by simp [hds], hne⟩
  have hshown : (Decimal.of c p).shownDigits = trimZeros (Nat.toDigits 10 c) := rfl
  have hpoint : (Decimal.of c p).point
      = p + ((trimZeros (Nat.toDigits 10 c)).length + k : Nat) := by
    have hlength := congrArg List.length hk
    rw [List.length_append, List.length_replicate] at hlength
    rw [← hlength]
    rfl
  have hvalue : c = 10 ^ k * Text.natOfDigits (trimZeros (Nat.toDigits 10 c)) := by
    have h := natOfDigits_toDigits c
    rw [hk, natOfDigits_append, natOfDigits_zeros, List.length_replicate, Nat.add_zero] at h
    exact h.symm
  rw [hshown, hpoint]
  generalize trimZeros (Nat.toDigits 10 c) = ds at *
  have hexponent : p + ((ds.length + k : Nat) : Int) - ds.length = (k : Int) + p := by omega
  have hcast : (c : ℚ) = 10 ^ k * Text.natOfDigits ds := by exact_mod_cast hvalue
  rw [hexponent, hcast, zpow_add₀ (by norm_num), zpow_natCast]
  ring

/-- The text of a magnitude is read as a double, from a decimal of the given value. -/
def ReadsAs (negative : Bool) (m : Magnitude) (value : ℚ) : Prop :=
  ∀ rest, EndsNumber rest → ∃ digits exponent,
    readNumber (signText negative ++ (Text.ofChars m.chars ++ rest))
      = .ok (.double (ofDecimal negative digits exponent), rest) ∧
    (digits : ℚ) * 10 ^ exponent = value

section Forms

variable (negative : Bool) {ds : List Char} (hne : ds ≠ []) (hds : ∀ c ∈ ds, c.isDigit = true)

include hds

theorem isDigit_zeros_append (n : Nat) : ∀ c ∈ List.replicate n '0' ++ ds, c.isDigit = true := by
  intro c hc
  rcases List.mem_append.mp hc with hc | hc
  · rw [List.eq_of_mem_replicate hc]
    decide
  · exact hds c hc

include hne

/-- Digits behind the point and zeros. -/
theorem readsAs_small (n : Nat) :
    ReadsAs negative (.decimal ['0'] (some (List.replicate n '0' ++ ds)) none)
      (Text.natOfDigits ds * 10 ^ (-(n : Int) - ds.length)) := by
  intro rest hrest
  refine ⟨_, _, readNumber_decimal negative ['0'] (some (List.replicate n '0' ++ ds)) none
    (by simp) (List.forall_mem_singleton.mpr (by decide)) (fun _ => rfl) ?_ (by simp) hrest, ?_⟩
  · rintro part ⟨⟩
    exact ⟨by simp [hne], isDigit_zeros_append hds n⟩
  · have hvalue : Text.natOfDigits (['0'] ++ (List.replicate n '0' ++ ds))
        = Text.natOfDigits ds := by
      rw [natOfDigits_append, natOfDigits_append, natOfDigits_zeros]
      simp [Text.natOfDigits]
    have hexponent : (0 : Int) - (List.replicate n '0' ++ ds).length = -(n : Int) - ds.length := by
      rw [List.length_append, List.length_replicate]
      omega
    rw [Option.getD_some, Option.getD_none, hvalue, hexponent]

/-- Digits around the point, with zeros up to it if they do not reach it. -/
theorem readsAs_positional {n : Nat} (hn : 0 < n)
    (hstart : ds.head? = some '0' → ds = ['0'] ∧ n = 1) :
    ReadsAs negative (.decimal (ds.take n ++ List.replicate (n - ds.length) '0')
        (some (if (ds.drop n).isEmpty then ['0'] else ds.drop n)) none)
      (Text.natOfDigits ds * 10 ^ ((n : Int) - ds.length)) := by
  intro rest hrest
  obtain ⟨c, cs, rfl⟩ := List.exists_cons_of_ne_nil hne
  obtain ⟨k, rfl⟩ : ∃ k, n = k + 1 := ⟨n - 1, by omega⟩
  refine ⟨_, _, readNumber_decimal negative _ _ none (by simp) ?_ ?_ ?_ (by simp) hrest, ?_⟩
  · intro d hd
    rcases List.mem_append.mp hd with hd | hd
    · exact hds d (List.mem_of_mem_take hd)
    · rw [List.eq_of_mem_replicate hd]
      decide
  · intro hhead
    have hc : c = '0' := by simpa using hhead
    obtain ⟨hcs, hk⟩ := hstart (by rw [hc]; rfl)
    rw [hcs, hk]
    rfl
  · rintro part ⟨⟩
    split
    · exact ⟨by simp, List.forall_mem_singleton.mpr (by decide)⟩
    · rename_i hpart
      exact ⟨by simpa using hpart, fun d hd => hds d (List.mem_of_mem_drop hd)⟩
  · generalize c :: cs = ds at *
    rw [Option.getD_some, Option.getD_none]
    by_cases hshort : ds.length ≤ k + 1
    · rw [List.take_of_length_le hshort, List.drop_eq_nil_of_le hshort, List.isEmpty_nil,
        if_pos rfl, natOfDigits_append, natOfDigits_append, natOfDigits_zeros]
      have hexponent : ((k + 1 : Nat) : Int) - ds.length
          = ((k + 1 - ds.length + 1 : Nat) : Int) + (0 - ([('0' : Char)].length : Int)) := by
        simp only [List.length_singleton]
        omega
      rw [hexponent, zpow_add₀ (by norm_num), zpow_natCast, pow_succ]
      push_cast [List.length_replicate]
      simp [Text.natOfDigits]
      ring
    · have hlong : (ds.drop (k + 1)).isEmpty = false := by
        simp
        omega
      rw [hlong, show k + 1 - ds.length = 0 by omega]
      simp only [List.replicate_zero, List.append_nil, Bool.false_eq_true, if_false,
        List.take_append_drop, List.length_drop]
      congr 2
      omega

/-- One digit before the point, and an exponent. -/
theorem readsAs_exponent (point : Int) :
    ReadsAs negative (.decimal (ds.take 1) (if ds.length ≤ 1 then none else some (ds.drop 1))
        (some ('e' :: exponentChars (point - 1))))
      (Text.natOfDigits ds * 10 ^ (point - ds.length)) := by
  intro rest hrest
  obtain ⟨c, cs, rfl⟩ := List.exists_cons_of_ne_nil hne
  refine ⟨_, _, readNumber_decimal negative ((c :: cs).take 1)
    (if (c :: cs).length ≤ 1 then none else some ((c :: cs).drop 1)) (some (point - 1))
    (by simp) ?_ ?_ ?_ (by simp) hrest, ?_⟩
  · intro d hd
    exact hds d (List.mem_of_mem_take hd)
  · intro hhead
    have hc : c = '0' := by simpa using hhead
    rw [hc]
    rfl
  · intro part hpart
    split at hpart
    · cases hpart
    · cases hpart
      refine ⟨?_, fun d hd => hds d (List.mem_of_mem_drop hd)⟩
      simp_all
  · cases cs with
    | nil => simp
    | cons d ds =>
      have hpart : (if (c :: d :: ds).length ≤ 1 then none else some ((c :: d :: ds).drop 1))
          = some (d :: ds) := if_neg (by simp)
      have hexponent : point - 1 - ((d :: ds).length : Int)
          = point - ((c :: d :: ds).length : Int) := by
        simp only [List.length_cons]
        omega
      rw [hpart, Option.getD_some, Option.getD_some, hexponent]
      rfl

end Forms

/-- A decimal with digits and its point, as documents write it, is read with its value. -/
theorem readsAs_magnitude (negative : Bool) {d : Decimal}
    (h : 0 < d.digits ∨ d = { digits := 0, point := 1 }) :
    ReadsAs negative d.magnitude
      (Text.natOfDigits d.shownDigits * 10 ^ (d.point - d.shownDigits.length)) := by
  have hds := isDigit_shownDigits (d := d)
  have hne := shownDigits_ne_nil d
  unfold Decimal.magnitude
  simp only
  split
  · split
    · rename_i hpoint
      have hsmall := readsAs_small negative hne hds (-d.point).toNat
      rwa [show -((-d.point).toNat : Int) = d.point by omega] at hsmall
    · have hpositional := readsAs_positional negative hne hds (n := d.point.toNat) (by omega) ?_
      · rwa [show (d.point.toNat : Int) = d.point by omega] at hpositional
      · intro hhead
        rcases h with h | rfl
        · obtain ⟨c, cs, hc, hzero⟩ := shownDigits_start h
          rw [hc] at hhead
          exact absurd (Option.some.inj hhead) hzero
        · exact ⟨rfl, rfl⟩
  · exact readsAs_exponent negative hne hds d.point

/-- A decimal starts with a digit, as documents write it. -/
theorem magnitude_start (d : Decimal) :
    ∃ c cs, d.magnitude.chars = c :: cs ∧ c.isDigit = true := by
  obtain ⟨c, cs, hcs⟩ := List.exists_cons_of_ne_nil (shownDigits_ne_nil d)
  have hc : c.isDigit = true := isDigit_shownDigits (d := d) c (by simp [hcs])
  unfold Decimal.magnitude
  simp only [hcs]
  split
  · split
    · exact ⟨'0', _, rfl, by decide⟩
    · obtain ⟨k, hk⟩ : ∃ k, d.point.toNat = k + 1 := ⟨d.point.toNat - 1, by omega⟩
      rw [chars_decimal, hk]
      exact ⟨c, _, rfl, hc⟩
  · rw [chars_decimal]
    exact ⟨c, _, rfl, hc⟩

/-- Every finite double is read back from the digits that it was written with. -/
theorem readNumber_documented {negative : Bool} {m : Nat} {e : Int}
    (h : (Double.finite negative m e).IsCanonical) {rest : Text} (hrest : EndsNumber rest) :
    readNumber ((Double.finite negative m e).documented ++ rest)
      = .ok (.double (.finite negative m e), rest) := by
  rw [documented_finite, List.append_assoc, finiteMagnitude]
  by_cases hm : m = 0
  · subst hm
    rw [if_pos rfl]
    obtain ⟨digits, exponent, hread, hvalue⟩ :=
      readsAs_magnitude negative (.inr rfl) rest hrest
    have hzero : digits = 0 := by
      have hshown : Text.natOfDigits ({ digits := 0, point := 1 } : Decimal).shownDigits = 0 := rfl
      rw [hshown, Nat.cast_zero, zero_mul] at hvalue
      simpa [zpow_ne_zero] using hvalue
    rw [hread, hzero, show e = leastExponent from h.2.2.2 (by decide)]
    rfl
  · rw [if_neg hm]
    obtain ⟨c, p, hshortest, hreads⟩ := shortest_reads h hm
    have hpos : 0 < (shortest m e).digits := shortestFrom_pos m e _ _
    obtain ⟨digits, exponent, hread, hvalue⟩ :=
      readsAs_magnitude negative (.inl hpos) rest hrest
    rw [hshortest] at hpos hvalue
    rw [shownDigits_value (c := c) hpos] at hvalue
    rw [hread, ofDecimal_of_reads h hm (by rwa [hvalue])]

end Double

end BlockScript
