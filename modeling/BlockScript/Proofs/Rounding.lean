-- Rounding, on exact values. The double nearest to a fraction is the one whose
-- interval the fraction lies in, and the digits that a double is written with
-- lie in its interval. So they read back as that double.
import BlockScript.Double.Digits
import Mathlib.Algebra.Order.Field.Power
import Mathlib.Data.Rat.Cast.Order
import Mathlib.Tactic.FieldSimp
import Mathlib.Tactic.Linarith
import Mathlib.Tactic.Positivity
import Mathlib.Tactic.Ring

namespace BlockScript.Double

/-! ## Intervals -/

/-- The doubles of the format, each in the one form that it has. -/
def IsCanonical : Double → Prop
  | .nan | .infinity _ => True
  | .finite _ m e =>
    m < twoTo precision ∧ leastExponent ≤ e ∧ e ≤ greatestExponent ∧
      (m < twoTo (precision - 1) → e = leastExponent)

/-- How far below `m`, in units of `2 ^ e`, a fraction still belongs to `m * 2 ^ e`. At a power of
two the number below is nearer. -/
def marginBelow (m : Nat) (e : Int) : ℚ :=
  if m = twoTo (precision - 1) ∧ e > leastExponent then 1 / 4 else 1 / 2

/-- Whether a fraction reads as `m * 2 ^ e`. It is given in units of `2 ^ e`. The two ends belong to
the number with the even mantissa. -/
structure Reads (m : Nat) (e : Int) (x : ℚ) : Prop where
  low : m - marginBelow m e ≤ x
  high : x ≤ m + 1 / 2
  inside : m % 2 = 1 → m - marginBelow m e < x ∧ x < m + 1 / 2

theorem marginBelow_le (m : Nat) (e : Int) : marginBelow m e ≤ 1 / 2 := by
  unfold marginBelow
  split <;> norm_num

theorem Reads.half_le {m : Nat} {e : Int} {x : ℚ} (h : Reads m e x) (hm : m ≠ 0) : 1 / 2 ≤ x := by
  have hmargin := marginBelow_le m e
  have hm' : (1 : ℚ) ≤ m := by exact_mod_cast Nat.one_le_iff_ne_zero.mpr hm
  linarith [h.low]

theorem Reads.lt_top {m : Nat} {e : Int} {x : ℚ} (h : Reads m e x) (hm : m < twoTo precision) :
    x < 2 ^ 53 := by
  have hle : m + 1 ≤ 2 ^ 53 := hm
  have hle' : (m : ℚ) + 1 ≤ 2 ^ 53 := by exact_mod_cast hle
  linarith [h.high]

/-! ## Whole numbers -/

theorem twoTo_pos (n : Nat) : 0 < twoTo n := Nat.pow_pos (by decide)

theorem tenTo_pos (n : Nat) : 0 < tenTo n := Nat.pow_pos (by decide)

theorem cast_twoTo (n : Nat) : (twoTo n : ℚ) = 2 ^ (n : Int) := by
  rw [zpow_natCast, twoTo]
  exact Nat.cast_pow 2 n

theorem cast_tenTo (n : Nat) : (tenTo n : ℚ) = 10 ^ (n : Int) := by
  rw [zpow_natCast, tenTo]
  exact Nat.cast_pow 10 n

theorem roundDiv_eq_of_nat {n d m : Nat} (hd : 0 < d) (hlow : 2 * (m * d) ≤ 2 * n + d)
    (hhigh : 2 * n ≤ 2 * (m * d) + d)
    (hodd : m % 2 = 1 → 2 * (m * d) < 2 * n + d ∧ 2 * n < 2 * (m * d) + d) :
    roundDiv n d = m := by
  have hn : n / d * d + n % d = n := Nat.div_add_mod' n d
  have hr : n % d < d := Nat.mod_lt n hd
  unfold roundDiv
  simp only
  generalize n / d = low at *
  generalize n % d = r at *
  have hle : low ≤ m := by
    by_contra h
    have hmul := Nat.mul_le_mul_right d (show m + 1 ≤ low by omega)
    rw [Nat.add_mul] at hmul
    omega
  have hge : m ≤ low + 1 := by
    by_contra h
    have hmul := Nat.mul_le_mul_right d (show low + 2 ≤ m by omega)
    rw [Nat.add_mul] at hmul
    omega
  rcases Nat.eq_or_lt_of_le hle with rfl | hlt
  · rw [if_pos (by omega)]
  · obtain rfl : m = low + 1 := by omega
    rw [Nat.add_mul] at hlow hhigh hodd
    rw [if_neg (by omega)]

/-- A whole number that is within a half of a fraction is what the fraction is rounded to. Of two
that are as near, it is the even one. -/
theorem roundDiv_eq {n d m : Nat} (hd : 0 < d) (hlow : (m : ℚ) - 1 / 2 ≤ n / d)
    (hhigh : (n : ℚ) / d ≤ m + 1 / 2)
    (hodd : m % 2 = 1 → (m : ℚ) - 1 / 2 < n / d ∧ (n : ℚ) / d < m + 1 / 2) :
    roundDiv n d = m := by
  have hd' : (0 : ℚ) < d := by exact_mod_cast hd
  rw [le_div_iff₀ hd'] at hlow
  rw [div_le_iff₀ hd'] at hhigh
  rw [lt_div_iff₀ hd', div_lt_iff₀ hd'] at hodd
  apply roundDiv_eq_of_nat hd
  · have h : (2 * (m * d) : ℚ) ≤ 2 * n + d := by linarith
    exact_mod_cast h
  · have h : (2 * n : ℚ) ≤ 2 * (m * d) + d := by linarith
    exact_mod_cast h
  · intro hm
    obtain ⟨hlow, hhigh⟩ := hodd hm
    have h : (2 * (m * d) : ℚ) < 2 * n + d := by linarith
    have h' : (2 * n : ℚ) < 2 * (m * d) + d := by linarith
    exact ⟨by exact_mod_cast h, by exact_mod_cast h'⟩

/-- What a fraction is rounded to is less than one away from it. -/
theorem roundDiv_bounds {n d : Nat} (hd : 0 < d) :
    (roundDiv n d : ℚ) < n / d + 1 ∧ (n : ℚ) / d < roundDiv n d + 1 := by
  have hd' : (0 : ℚ) < d := by exact_mod_cast hd
  have hn : n / d * d + n % d = n := Nat.div_add_mod' n d
  have hr : n % d < d := Nat.mod_lt n hd
  rw [div_lt_iff₀ hd', ← sub_lt_iff_lt_add, lt_div_iff₀ hd']
  have h : roundDiv n d * d < n + d ∧ n < roundDiv n d * d + d := by
    unfold roundDiv
    simp only
    split
    · omega
    · rw [Nat.add_mul]
      omega
  constructor
  · have h' : (roundDiv n d * d : ℚ) < n + d := by exact_mod_cast h.1
    linarith
  · have h' : (n : ℚ) < roundDiv n d * d + d := by exact_mod_cast h.2
    linarith

/-! ## Scaled fractions -/

theorem scaled_pos {den : Nat} (hden : 0 < den) (num : Nat) (e : Int) :
    0 < (scaled num den e).2 := Nat.mul_pos hden (twoTo_pos _)

/-- A scaled fraction is the fraction in units of `2 ^ e`. -/
theorem scaled_eq (num den : Nat) (e : Int) :
    ((scaled num den e).1 : ℚ) / (scaled num den e).2 = (num : ℚ) / den / 2 ^ e := by
  have htwo : (2 : ℚ) ≠ 0 := by norm_num
  unfold scaled
  simp only [Nat.cast_mul, cast_twoTo]
  have hsplit : (2 : ℚ) ^ e = 2 ^ (e.toNat : Int) / 2 ^ ((-e).toNat : Int) := by
    rw [← zpow_sub₀ htwo]
    congr 1
    omega
  rw [hsplit]
  have h1 : (2 : ℚ) ^ (e.toNat : Int) ≠ 0 := zpow_ne_zero _ htwo
  have h2 : (2 : ℚ) ^ ((-e).toNat : Int) ≠ 0 := zpow_ne_zero _ htwo
  by_cases hden : (den : ℚ) = 0
  · simp [hden]
  · field_simp

/-- Between one exponent and the next, a fraction is halved. -/
theorem div_zpow_succ (v : ℚ) (e : Int) : v / 2 ^ (e + 1) = v / 2 ^ e / 2 := by
  rw [zpow_add_one₀ (by norm_num), div_div]

theorem div_zpow_anti {v : ℚ} (hv : 0 ≤ v) {e f : Int} (h : e ≤ f) : v / 2 ^ f ≤ v / 2 ^ e := by
  have hpow : (2 : ℚ) ^ e ≤ 2 ^ f := zpow_le_zpow_right₀ (by norm_num) h
  exact div_le_div_of_nonneg_left hv (by positivity) hpow

/-! ## The nearest double -/

/-- The double with a rounded mantissa. A mantissa that was rounded up to two to the precision is
that of the next exponent. -/
def packed (negative : Bool) (m : Nat) (e : Int) : Double :=
  let (m, e) := if m = twoTo precision then (twoTo (precision - 1), e + 1) else (m, e)
  if e > greatestExponent then .infinity negative
  else if m = 0 then zero negative
  else .finite negative m e

/-- The exponent of which the fraction has between two to 52 and two to 53 units. -/
def HasExponent (v : ℚ) (e : Int) : Prop := 2 ^ 52 ≤ v / 2 ^ e ∧ v / 2 ^ e < 2 ^ 53

theorem log2_bounds {n : Nat} (h : n ≠ 0) :
    (2 : ℚ) ^ (n.log2 : Int) ≤ n ∧ (n : ℚ) < 2 ^ ((n.log2 : Int) + 1) := by
  refine ⟨?_, ?_⟩
  · rw [zpow_natCast]
    exact_mod_cast Nat.log2_self_le h
  · have hlt : n < 2 ^ (n.log2 + 1) := Nat.lt_log2_self
    exact_mod_cast hlt

/-- The whole numbers of binary digits tell the exponent of a fraction but for one. -/
theorem guess_bounds {num den : Nat} (hnum : num ≠ 0) (hden : den ≠ 0) :
    let guess : Int := (num.log2 : Int) - (den.log2 : Int) - precision
    2 ^ 52 < (num : ℚ) / den / 2 ^ guess ∧ (num : ℚ) / den / 2 ^ guess < 2 ^ 54 := by
  intro guess
  have htwo : (2 : ℚ) ≠ 0 := by norm_num
  have hnum' := log2_bounds hnum
  have hden' := log2_bounds hden
  have hpos : (0 : ℚ) < den := by exact_mod_cast Nat.pos_of_ne_zero hden
  have hscale : (0 : ℚ) < 2 ^ guess := by positivity
  rw [div_div, lt_div_iff₀ (by positivity), div_lt_iff₀ (by positivity)]
  have hlow : (2 : ℚ) ^ 52 * (2 ^ ((den.log2 : Int) + 1) * 2 ^ guess) = 2 ^ (num.log2 : Int) := by
    rw [← zpow_add₀ htwo, ← zpow_natCast, ← zpow_add₀ htwo]
    congr 1
    simp only [guess, precision]
    omega
  have hhigh : (2 : ℚ) ^ 54 * (2 ^ (den.log2 : Int) * 2 ^ guess) = 2 ^ ((num.log2 : Int) + 1) := by
    rw [← zpow_add₀ htwo, ← zpow_natCast, ← zpow_add₀ htwo]
    congr 1
    simp only [guess, precision]
    omega
  constructor
  · calc (2 : ℚ) ^ 52 * (den * 2 ^ guess)
        < 2 ^ 52 * (2 ^ ((den.log2 : Int) + 1) * 2 ^ guess) := by
          have := mul_lt_mul_of_pos_right hden'.2 hscale
          linarith
      _ = 2 ^ (num.log2 : Int) := hlow
      _ ≤ num := hnum'.1
  · calc (num : ℚ) < 2 ^ ((num.log2 : Int) + 1) := hnum'.2
      _ = 2 ^ 54 * (2 ^ (den.log2 : Int) * 2 ^ guess) := hhigh.symm
      _ ≤ 2 ^ 54 * (den * 2 ^ guess) := by
          have := mul_le_mul_of_nonneg_right hden'.1 hscale.le
          linarith

/-- The nearest double is found by rounding at the exponent of the fraction, or at the least
exponent if that is greater. -/
theorem nearest_eq_packed (negative : Bool) {num den : Nat} (hnum : num ≠ 0) (hden : den ≠ 0) :
    ∃ e, HasExponent ((num : ℚ) / den) e ∧
      nearest negative num den = packed negative
        (roundDiv (scaled num den (max leastExponent e)).1 (scaled num den (max leastExponent e)).2)
        (max leastExponent e) := by
  have hbounds := guess_bounds hnum hden
  simp only at hbounds
  unfold nearest
  rw [if_neg (by simp [hnum, hden])]
  simp only
  generalize (num.log2 : Int) - (den.log2 : Int) - precision = guess at *
  have hd := scaled_pos (Nat.pos_of_ne_zero hden) num guess
  have hd' : (0 : ℚ) < (scaled num den guess).2 := by exact_mod_cast hd
  have htest : (scaled num den guess).1 / (scaled num den guess).2 ≥ twoTo precision ↔
      (2 : ℚ) ^ 53 ≤ (num : ℚ) / den / 2 ^ guess := by
    rw [ge_iff_le, Nat.le_div_iff_mul_le hd, ← scaled_eq, le_div_iff₀ hd', twoTo, precision]
    norm_cast
  refine ⟨if (scaled num den guess).1 / (scaled num den guess).2 ≥ twoTo precision then guess + 1
    else guess, ?_, rfl⟩
  unfold HasExponent
  split
  · rename_i h
    rw [div_zpow_succ]
    have := htest.mp h
    constructor <;> linarith [hbounds.2]
  · rename_i h
    rw [htest, not_le] at h
    exact ⟨hbounds.1.le, h⟩

theorem HasExponent.lt_of_lt {v : ℚ} (hv : 0 ≤ v) {e f : Int} (h : HasExponent v f)
    (hx : v / 2 ^ e < 2 ^ 52) : f < e := by
  by_contra hle
  have hanti := div_zpow_anti hv (Int.not_lt.mp hle)
  exact absurd h.1 (not_le.mpr (hanti.trans_lt hx))

theorem HasExponent.unique {v : ℚ} (hv : 0 ≤ v) {e f : Int} (h : HasExponent v f)
    (h' : HasExponent v e) : f = e := by
  have hlt : ∀ {a b : Int}, HasExponent v a → HasExponent v b → ¬ a < b := by
    intro a b ha hb hab
    have hanti := div_zpow_anti hv (Int.add_one_le_of_lt hab)
    rw [div_zpow_succ] at hanti
    linarith [ha.2, hb.1]
  have := hlt h h'
  have := hlt h' h
  omega

/-- At its own exponent a fraction is rounded to the mantissa that it reads as. -/
theorem Reads.roundDiv {num den m : Nat} {e : Int} (hden : den ≠ 0)
    (h : Reads m e ((num : ℚ) / den / 2 ^ e)) :
    Double.roundDiv (scaled num den e).1 (scaled num den e).2 = m := by
  have hmargin := marginBelow_le m e
  apply roundDiv_eq (scaled_pos (Nat.pos_of_ne_zero hden) num e)
  · rw [scaled_eq]
    linarith [h.low]
  · rw [scaled_eq]
    exact h.high
  · intro hm
    rw [scaled_eq]
    obtain ⟨hlow, hhigh⟩ := h.inside hm
    exact ⟨by linarith, hhigh⟩

theorem packed_eq {negative : Bool} {m : Nat} {e : Int}
    (h : (Double.finite negative m e).IsCanonical) (hm : m ≠ 0) :
    packed negative m e = .finite negative m e := by
  obtain ⟨hbound, -, hgreatest, -⟩ := h
  unfold packed
  rw [if_neg (Nat.ne_of_lt hbound)]
  simp only
  rw [if_neg (Int.not_lt.mpr hgreatest), if_neg hm]

/-- A fraction that reads as a double and has a lesser exponent is just below a power of two. -/
theorem Reads.power_of_lt {m : Nat} {e : Int} {x : ℚ} (h : Reads m e x)
    (hsmall : m < twoTo (precision - 1) → e = leastExponent) (he : leastExponent < e)
    (hx : x < 2 ^ 52) : m = twoTo (precision - 1) ∧ 2 ^ 52 - 1 / 4 ≤ x := by
  have hpower : m = twoTo (precision - 1) := by
    have hge : ¬ m < twoTo (precision - 1) := fun hlt => absurd (hsmall hlt) he.ne'
    have hmargin := marginBelow_le m e
    have hle : (m : ℚ) < 2 ^ 52 + 1 := by linarith [h.low]
    have hle' : m < 2 ^ 52 + 1 := by exact_mod_cast hle
    have htwo : twoTo (precision - 1) = 2 ^ 52 := rfl
    omega
  have hquarter : marginBelow m e = 1 / 4 := if_pos ⟨hpower, he⟩
  have hcast : (m : ℚ) = 2 ^ 52 := by
    rw [hpower]
    norm_num [twoTo, precision]
  have hlow := h.low
  rw [hquarter, hcast] at hlow
  exact ⟨hpower, hlow⟩

/-- A fraction just below a power of two has the exponent before, and is rounded up. -/
theorem nearest_of_below_power {negative : Bool} {num den : Nat} {e : Int} (hnum : num ≠ 0)
    (hden : den ≠ 0) (he : leastExponent < e) (hgreatest : e ≤ greatestExponent)
    (hlow : 2 ^ 52 - 1 / 4 ≤ (num : ℚ) / den / 2 ^ e) (hhigh : (num : ℚ) / den / 2 ^ e < 2 ^ 52) :
    nearest negative num den = .finite negative (twoTo (precision - 1)) e := by
  obtain ⟨f, hf, heq⟩ := nearest_eq_packed negative hnum hden
  have hhalf : (num : ℚ) / den / 2 ^ (e - 1) = 2 * ((num : ℚ) / den / 2 ^ e) := by
    have hsucc := div_zpow_succ ((num : ℚ) / den) (e - 1)
    rw [Int.sub_add_cancel] at hsucc
    linarith
  have hexponent : HasExponent ((num : ℚ) / den) (e - 1) := by
    unfold HasExponent
    rw [hhalf]
    constructor <;> linarith
  have hmax : max leastExponent f = e - 1 := by
    rw [hf.unique (by positivity) hexponent]
    omega
  have hround : Double.roundDiv (scaled num den (e - 1)).1 (scaled num den (e - 1)).2
      = twoTo precision := by
    have hcast : (twoTo precision : ℚ) = 2 ^ 53 := by norm_num [twoTo, precision]
    apply roundDiv_eq (scaled_pos (Nat.pos_of_ne_zero hden) num (e - 1))
    · rw [scaled_eq, hhalf, hcast]
      linarith
    · rw [scaled_eq, hhalf, hcast]
      linarith
    · intro hodd
      exact absurd hodd (by decide)
  rw [heq, hmax, hround]
  unfold packed
  rw [if_pos rfl]
  simp only [Int.sub_add_cancel]
  rw [if_neg (Int.not_lt.mpr hgreatest), if_neg (by decide)]

/-- The double nearest to a fraction is the one that the fraction reads as. -/
theorem nearest_of_reads {negative : Bool} {num den m : Nat} {e : Int} (hden : den ≠ 0)
    (hcanonical : (Double.finite negative m e).IsCanonical) (hm : m ≠ 0)
    (h : Reads m e ((num : ℚ) / den / 2 ^ e)) :
    nearest negative num den = .finite negative m e := by
  have hnum : num ≠ 0 := by
    rintro rfl
    have hhalf := h.half_le hm
    simp only [Nat.cast_zero, zero_div] at hhalf
    linarith
  have hv : (0 : ℚ) ≤ (num : ℚ) / den := by positivity
  obtain ⟨hbound, hleast, hgreatest, hsmall⟩ := id hcanonical
  obtain ⟨f, hf, heq⟩ := nearest_eq_packed negative hnum hden
  have hhere : max leastExponent f = e → nearest negative num den = .finite negative m e := by
    intro hmax
    rw [heq, hmax, h.roundDiv hden]
    exact packed_eq hcanonical hm
  by_cases hx : (num : ℚ) / den / 2 ^ e < 2 ^ 52
  · have hlt : f < e := hf.lt_of_lt hv hx
    by_cases he : e = leastExponent
    · exact hhere (by omega)
    · have he' : leastExponent < e := by omega
      obtain ⟨rfl, hlow⟩ := h.power_of_lt hsmall he' hx
      exact nearest_of_below_power hnum hden he' hgreatest hlow hx
  · have hexponent : HasExponent ((num : ℚ) / den) e := ⟨not_lt.mp hx, h.lt_top hbound⟩
    rw [hf.unique hv hexponent] at hhere
    exact hhere (by omega)

theorem isCanonical_zero (negative : Bool) : (zero negative).IsCanonical :=
  ⟨by decide, by decide, by decide, fun _ => rfl⟩

theorem isCanonical_packed (negative : Bool) {m : Nat} {e : Int} (hm : m ≤ twoTo precision)
    (he : leastExponent ≤ e) (hsmall : m < twoTo (precision - 1) → e = leastExponent) :
    (packed negative m e).IsCanonical := by
  unfold packed
  by_cases htop : m = twoTo precision
  · rw [if_pos htop]
    simp only
    split
    · trivial
    · split
      · exact isCanonical_zero negative
      · exact ⟨by decide, by omega, by omega, fun h => absurd h (Nat.lt_irrefl _)⟩
  · rw [if_neg htop]
    simp only
    split
    · trivial
    · split
      · exact isCanonical_zero negative
      · exact ⟨by omega, he, by omega, hsmall⟩

/-- Rounding gives doubles of the format. -/
theorem isCanonical_nearest (negative : Bool) (num den : Nat) :
    (nearest negative num den).IsCanonical := by
  by_cases hzero : num = 0 ∨ den = 0
  · unfold nearest
    rw [if_pos hzero]
    exact isCanonical_zero negative
  · obtain ⟨hnum, hden⟩ := not_or.mp hzero
    obtain ⟨f, hf, heq⟩ := nearest_eq_packed negative hnum hden
    have hv : (0 : ℚ) ≤ (num : ℚ) / den := by positivity
    obtain ⟨hhigh, hlow⟩ := roundDiv_bounds (n := (scaled num den (max leastExponent f)).1)
      (scaled_pos (Nat.pos_of_ne_zero hden) num (max leastExponent f))
    rw [scaled_eq] at hhigh hlow
    rw [heq]
    apply isCanonical_packed
    · have hanti := div_zpow_anti hv (le_max_right leastExponent f)
      have h : (Double.roundDiv (scaled num den (max leastExponent f)).1
          (scaled num den (max leastExponent f)).2 : ℚ) < 2 ^ 53 + 1 := by linarith [hf.2]
      exact Nat.le_of_lt_succ (by exact_mod_cast h)
    · exact le_max_left _ _
    · intro hsmall
      by_contra hne
      have hmax : max leastExponent f = f := by omega
      rw [hmax] at hlow hsmall
      have h : (Double.roundDiv (scaled num den f).1 (scaled num den f).2 : ℚ) + 1 ≤ 2 ^ 52 := by
        have : Double.roundDiv (scaled num den f).1 (scaled num den f).2 + 1 ≤ 2 ^ 52 := hsmall
        exact_mod_cast this
      linarith [hf.1]

end BlockScript.Double
