-- The fewest digits of a double. They are found within the tries that there
-- are, they lie in the interval of the double, and reading any decimal of that
-- interval gives the double back.
import BlockScript.Proofs.Rounding

namespace BlockScript.Double

/-! ## Powers of ten and of two -/

/-- A power of ten is above a power of two if its exponent says so, by less than a thousandth. -/
theorem two_pow_le_ten_pow {j q : Nat} (h : 28 * j ≤ 93 * q) : 2 ^ j ≤ 10 ^ q := by
  have hpow : (2 ^ j) ^ 28 ≤ (10 ^ q) ^ 28 := by
    calc (2 ^ j) ^ 28 = 2 ^ (28 * j) := by rw [← pow_mul, Nat.mul_comm]
      _ ≤ 2 ^ (93 * q) := Nat.pow_le_pow_right (by decide) h
      _ = (2 ^ 93) ^ q := by rw [pow_mul]
      _ ≤ (10 ^ 28) ^ q := Nat.pow_le_pow_left (by decide) q
      _ = (10 ^ q) ^ 28 := by rw [← pow_mul, ← pow_mul, Nat.mul_comm]
  exact (Nat.pow_le_pow_iff_left (by decide)).mp hpow

theorem ten_pow_le_two_pow {p j : Nat} (h : 196 * p ≤ 59 * j) : 10 ^ p ≤ 2 ^ j := by
  have hpow : (10 ^ p) ^ 59 ≤ (2 ^ j) ^ 59 := by
    calc (10 ^ p) ^ 59 = (10 ^ 59) ^ p := by rw [← pow_mul, ← pow_mul, Nat.mul_comm]
      _ ≤ (2 ^ 196) ^ p := Nat.pow_le_pow_left (by decide) p
      _ = 2 ^ (196 * p) := by rw [pow_mul]
      _ ≤ 2 ^ (59 * j) := Nat.pow_le_pow_right (by decide) h
      _ = (2 ^ j) ^ 59 := by rw [← pow_mul, Nat.mul_comm]
  exact (Nat.pow_le_pow_iff_left (by decide)).mp hpow

/-! ## Grids -/

theorem Grid.quarter_pos (p e : Int) : 0 < (Grid.of p e).quarter :=
  Nat.mul_pos (tenTo_pos _) (twoTo_pos _)

theorem Grid.step_pos (p e : Int) : 0 < (Grid.of p e).step :=
  Nat.mul_pos (tenTo_pos _) (twoTo_pos _)

/-- The step of a grid is `10 ^ p`, the quarter is one of `2 ^ e`. -/
theorem Grid.ratio (p e : Int) :
    ((Grid.of p e).step : ℚ) / (Grid.of p e).quarter = 4 * (10 ^ p / 2 ^ e) := by
  have htwo : (2 : ℚ) ≠ 0 := by norm_num
  have hten : (10 : ℚ) ≠ 0 := by norm_num
  unfold Grid.of
  simp only [Nat.cast_mul, cast_twoTo, cast_tenTo]
  have hsplit : (10 : ℚ) ^ p = 10 ^ (p.toNat : Int) / 10 ^ ((-p).toNat : Int) := by
    rw [← zpow_sub₀ hten]
    congr 1
    omega
  have hsplit' : (2 : ℚ) ^ e = 4 * (2 ^ ((e - 2).toNat : Int) / 2 ^ ((2 - e).toNat : Int)) := by
    rw [← zpow_sub₀ htwo, show (4 : ℚ) = 2 ^ (2 : Int) by norm_num, ← zpow_add₀ htwo]
    congr 1
    omega
  rw [hsplit, hsplit']
  have h1 : (2 : ℚ) ^ ((e - 2).toNat : Int) ≠ 0 := zpow_ne_zero _ htwo
  have h2 : (2 : ℚ) ^ ((2 - e).toNat : Int) ≠ 0 := zpow_ne_zero _ htwo
  have h3 : (10 : ℚ) ^ ((-p).toNat : Int) ≠ 0 := zpow_ne_zero _ hten
  field_simp

theorem Grid.place_eq (p e : Int) (c : Nat) :
    4 * ((c : ℚ) * 10 ^ p / 2 ^ e) * (Grid.of p e).quarter = c * (Grid.of p e).step := by
  have hq : ((Grid.of p e).quarter : ℚ) ≠ 0 := by exact_mod_cast (Grid.quarter_pos p e).ne'
  have hratio := Grid.ratio p e
  rw [div_eq_iff hq] at hratio
  rw [hratio]
  ring

/-- What the grid takes off below is four times the margin. -/
theorem cast_below {m : Nat} (hm : m ≠ 0) (e : Int) :
    ((4 * m - if m = twoTo (precision - 1) ∧ e > leastExponent then 1 else 2 : Nat) : ℚ)
      = 4 * (m - marginBelow m e) := by
  unfold marginBelow
  split
  · rw [Nat.cast_sub (by omega)]
    push_cast
    ring
  · rw [Nat.cast_sub (by omega)]
    push_cast
    ring

/-- A point that a grid holds for a double reads as that double. -/
theorem Grid.reads_of_holds {p e : Int} {m c : Nat} (hm : m ≠ 0)
    (h : (Grid.of p e).holds m e c = true) : Reads m e ((c : ℚ) * 10 ^ p / 2 ^ e) := by
  have hq : (0 : ℚ) < (Grid.of p e).quarter := by exact_mod_cast Grid.quarter_pos p e
  have hplace := Grid.place_eq p e c
  have hlow := cast_below hm e
  have hhigh : ((4 * m + 2 : Nat) : ℚ) = 4 * (m + 1 / 2) := by
    push_cast
    ring
  generalize (c : ℚ) * 10 ^ p / 2 ^ e = x at *
  have hle : ∀ a b : ℚ, 4 * a * (Grid.of p e).quarter ≤ 4 * b * (Grid.of p e).quarter ↔ a ≤ b :=
    fun a b => (mul_le_mul_iff_left₀ hq).trans (mul_le_mul_iff_right₀ (by norm_num))
  have hlt : ∀ a b : ℚ, 4 * a * (Grid.of p e).quarter < 4 * b * (Grid.of p e).quarter ↔ a < b :=
    fun a b => (mul_lt_mul_iff_left₀ hq).trans (mul_lt_mul_iff_right₀ (by norm_num))
  unfold Grid.holds at h
  simp only at h
  by_cases heven : m % 2 = 0
  · rw [if_pos heven, Bool.and_eq_true, decide_eq_true_eq, decide_eq_true_eq,
      ← Nat.cast_le (α := ℚ), ← Nat.cast_le (α := ℚ), Nat.cast_mul, Nat.cast_mul, Nat.cast_mul,
      hlow, hhigh, ← hplace, hle, hle] at h
    exact ⟨h.1, h.2, by omega⟩
  · rw [if_neg heven, Bool.and_eq_true, decide_eq_true_eq, decide_eq_true_eq,
      ← Nat.cast_lt (α := ℚ), ← Nat.cast_lt (α := ℚ), Nat.cast_mul, Nat.cast_mul, Nat.cast_mul,
      hlow, hhigh, ← hplace, hlt, hlt] at h
    exact ⟨h.1.le, h.2.le, fun _ => h⟩

theorem Grid.holds_of_pick {g : Grid} {m : Nat} {e : Int} {c : Nat} (h : g.pick? m e = some c) :
    g.holds m e c = true := by
  unfold Grid.pick? at h
  simp only at h
  split at h
  · rename_i hlow
    rw [Bool.and_eq_true] at hlow
    split at h
    · rename_i hhigh
      cases h
      -- the nearer point is the one below or the one above, and both are held
      unfold roundDiv
      simp only
      split
      · exact hlow.2
      · exact hhigh
    · cases h
      exact hlow.2
  · split at h
    · cases h
      assumption
    · cases h

/-- A grid that is no wider than the quarter holds the point below the number. -/
theorem Grid.pick_of_fine {p e : Int} {m : Nat} (hm : m ≠ 0)
    (hfine : (Grid.of p e).step ≤ (Grid.of p e).quarter) :
    ∃ c, (Grid.of p e).pick? m e = some c := by
  have hstep := Grid.step_pos p e
  generalize Grid.of p e = g at *
  have hmod : 4 * m * g.quarter % g.step < g.step := Nat.mod_lt _ hstep
  have hdiv : 4 * m * g.quarter / g.step * g.step + 4 * m * g.quarter % g.step
      = 4 * m * g.quarter := Nat.div_add_mod' _ _
  have hpos : 0 < 4 * m * g.quarter / g.step := by
    apply Nat.div_pos _ hstep
    calc g.step ≤ 1 * g.quarter := by omega
      _ ≤ 4 * m * g.quarter := Nat.mul_le_mul_right _ (by omega)
  have hholds : g.holds m e (4 * m * g.quarter / g.step) = true := by
    have hbelow : ∀ k, 1 ≤ k →
        (4 * m - k) * g.quarter < 4 * m * g.quarter / g.step * g.step := by
      intro k hk
      have := Nat.mul_le_mul_right g.quarter (show 4 * m - k + 1 ≤ 4 * m by omega)
      rw [Nat.add_mul] at this
      omega
    have habove : 4 * m * g.quarter / g.step * g.step < (4 * m + 2) * g.quarter := by
      rw [Nat.add_mul]
      omega
    have hlow := hbelow (if m = twoTo (precision - 1) ∧ e > leastExponent then 1 else 2)
      (by split <;> decide)
    unfold Grid.holds
    simp only
    split
    · simp [hlow.le, habove.le]
    · simp [hlow, habove]
  unfold Grid.pick?
  simp only [hholds, hpos, decide_true, Bool.and_self, if_true]
  split
  · exact ⟨_, rfl⟩
  · exact ⟨_, rfl⟩

/-! ## The tries -/

/-- If one of the grids to try is fine enough, the digits are held by one of them. -/
theorem shortestFrom_holds {m : Nat} {e : Int} (hm : m ≠ 0) {tries k : Nat} (hk : k < tries)
    {p : Int} (hfine : (Grid.of (p - k) e).step ≤ (Grid.of (p - k) e).quarter) :
    ∃ c q, shortestFrom m e tries p = .of c q ∧ (Grid.of q e).holds m e c = true := by
  induction tries generalizing p k with
  | zero => omega
  | succ tries ih =>
    unfold shortestFrom
    cases hpick : (Grid.of p e).pick? m e with
    | some c => exact ⟨c, p, rfl, Grid.holds_of_pick hpick⟩
    | none =>
      cases k with
      | zero =>
        obtain ⟨c, hc⟩ := Grid.pick_of_fine hm hfine
        rw [Nat.cast_zero, Int.sub_zero, hpick] at hc
        cases hc
      | succ k =>
        refine ih (k := k) (by omega) ?_
        rw [show p - 1 - (k : Int) = p - ((k + 1 : Nat) : Int) by omega]
        exact hfine

/-- The last grid that is tried is fine enough for every double. -/
theorem fine_of_canonical {negative : Bool} {m : Nat} {e : Int}
    (h : (Double.finite negative m e).IsCanonical) :
    (Grid.of (pointBound m e - 21) e).step ≤ (Grid.of (pointBound m e - 21) e).quarter := by
  obtain ⟨hm, hleast, hgreatest, -⟩ := h
  have hlog : m.log2 ≤ 52 := by
    by_cases hzero : m = 0
    · simp [hzero]
    · have hlt : m.log2 < 53 := (Nat.log2_lt hzero).mpr hm
      omega
  have hdef : pointBound m e = ((m.log2 + e + 1) * 30103) / 100000 + 2 := by
    rw [pointBound, Int.fdiv_eq_ediv_of_nonneg _ (by decide)]
  unfold leastExponent at hleast
  unfold greatestExponent at hgreatest
  generalize pointBound m e = p at *
  unfold Grid.of
  simp only [tenTo, twoTo, Nat.pow_eq]
  by_cases he : e < 2
  · have hp : (p - 21).toNat = 0 := by omega
    have he' : (e - 2).toNat = 0 := by omega
    rw [hp, he']
    have h := two_pow_le_ten_pow (j := (2 - e).toNat) (q := (-(p - 21)).toNat) (by omega)
    simpa using h
  · have he' : (2 - e).toNat = 0 := by omega
    rw [he']
    by_cases hp : p - 21 < 0
    · have hp' : (p - 21).toNat = 0 := by omega
      rw [hp']
      have h1 : 1 ≤ 10 ^ (-(p - 21)).toNat := Nat.one_le_pow _ _ (by decide)
      have h2 : 1 ≤ 2 ^ (e - 2).toNat := Nat.one_le_pow _ _ (by decide)
      simpa using Nat.mul_le_mul h1 h2
    · have hp' : (-(p - 21)).toNat = 0 := by omega
      rw [hp']
      have h := ten_pow_le_two_pow (p := (p - 21).toNat) (j := (e - 2).toNat) (by omega)
      simpa using h

/-- The digits of a double read as it. -/
theorem shortest_reads {negative : Bool} {m : Nat} {e : Int}
    (h : (Double.finite negative m e).IsCanonical) (hm : m ≠ 0) :
    ∃ c p, shortest m e = .of c p ∧ Reads m e ((c : ℚ) * 10 ^ p / 2 ^ e) := by
  obtain ⟨c, p, heq, hholds⟩ := shortestFrom_holds hm (show 21 < 22 by decide) (fine_of_canonical h)
  exact ⟨c, p, heq, Grid.reads_of_holds hm hholds⟩

/-! ## Reading decimals -/

/-- The digits of a number tell between which powers of ten it lies. -/
theorem digitCount_bounds {n : Nat} (h : n ≠ 0) :
    (10 : ℚ) ^ ((digitCount n : Int) - 1) ≤ n ∧ (n : ℚ) < 10 ^ (digitCount n : Int) := by
  have hpos : 0 < digitCount n := Nat.length_toDigits_pos
  constructor
  · obtain ⟨k, hk⟩ : ∃ k, digitCount n = k + 1 := ⟨digitCount n - 1, by omega⟩
    rw [hk, show ((k + 1 : Nat) : Int) - 1 = (k : Int) by omega, zpow_natCast]
    have hle : 10 ^ k ≤ n := by
      cases k with
      | zero => simpa using Nat.one_le_iff_ne_zero.mpr h
      | succ k =>
        by_contra hlt
        have := (Nat.length_toDigits_le_iff (b := 10) (n := n) (by decide) k.succ_pos).mpr
          (Nat.not_le.mp hlt)
        unfold digitCount at hk
        omega
    exact_mod_cast hle
  · rw [zpow_natCast]
    have hlt := (Nat.length_toDigits_le_iff (b := 10) (n := n) (by decide) hpos).mp (Nat.le_refl _)
    exact_mod_cast hlt

theorem decimal_ratio (digits : Nat) (exponent : Int) :
    ((digits * tenTo exponent.toNat : Nat) : ℚ) / (tenTo (-exponent).toNat : Nat)
      = digits * 10 ^ exponent := by
  have hten : (10 : ℚ) ≠ 0 := by norm_num
  rw [Nat.cast_mul, cast_tenTo, cast_tenTo, mul_div_assoc, ← zpow_sub₀ hten]
  congr 2
  omega

/-- What reads as a double is between the least and the greatest of them. -/
theorem Reads.value_bounds {negative : Bool} {m : Nat} {e : Int} {v : ℚ}
    (hcanonical : (Double.finite negative m e).IsCanonical) (hm : m ≠ 0)
    (h : Reads m e (v / 2 ^ e)) : 2 ^ (-1075 : Int) ≤ v ∧ v < 2 ^ (1024 : Int) := by
  have htwo : (2 : ℚ) ≠ 0 := by norm_num
  have hunit : (0 : ℚ) < 2 ^ e := by positivity
  obtain ⟨hbound, hleast, hgreatest, -⟩ := hcanonical
  unfold leastExponent at hleast
  unfold greatestExponent at hgreatest
  have hhalf := h.half_le hm
  have htop := h.lt_top hbound
  rw [le_div_iff₀ hunit] at hhalf
  rw [div_lt_iff₀ hunit, ← zpow_natCast, ← zpow_add₀ htwo] at htop
  constructor
  · calc (2 : ℚ) ^ (-1075 : Int) ≤ 2 ^ (e - 1) := zpow_le_zpow_right₀ (by norm_num) (by omega)
      _ = 1 / 2 * 2 ^ e := by rw [zpow_sub_one₀ htwo]; ring
      _ ≤ v := hhalf
  · exact htop.trans_le (zpow_le_zpow_right₀ (by norm_num) (by omega))

/-- The point of a decimal that reads as a double is not out of reach. -/
theorem point_bounds {negative : Bool} {m : Nat} {e : Int}
    (hcanonical : (Double.finite negative m e).IsCanonical) (hm : m ≠ 0) {digits : Nat}
    {exponent : Int} (hdigits : digits ≠ 0)
    (h : Reads m e ((digits : ℚ) * 10 ^ exponent / 2 ^ e)) :
    -330 ≤ exponent + (digitCount digits : Int) ∧ exponent + (digitCount digits : Int) ≤ 330 := by
  have hten : (10 : ℚ) ≠ 0 := by norm_num
  have hone : (1 : ℚ) < 10 := by norm_num
  have hpow : (0 : ℚ) < 10 ^ exponent := by positivity
  obtain ⟨hdlow, hdhigh⟩ := digitCount_bounds hdigits
  obtain ⟨hlow, hhigh⟩ := h.value_bounds hcanonical hm
  have hsmall : (10 : ℚ) ^ (-330 : Int) ≤ 2 ^ (-1075 : Int) := by
    rw [zpow_neg, zpow_neg]
    apply inv_anti₀ (by positivity)
    exact_mod_cast two_pow_le_ten_pow (j := 1075) (q := 330) (by decide)
  have hlarge : (2 : ℚ) ^ (1024 : Int) ≤ 10 ^ (329 : Int) := by
    exact_mod_cast two_pow_le_ten_pow (j := 1024) (q := 329) (by decide)
  constructor
  · have hlt : (10 : ℚ) ^ (-330 : Int) < 10 ^ (exponent + (digitCount digits : Int)) := by
      calc (10 : ℚ) ^ (-330 : Int) ≤ digits * 10 ^ exponent := hsmall.trans hlow
        _ < 10 ^ (digitCount digits : Int) * 10 ^ exponent := mul_lt_mul_of_pos_right hdhigh hpow
        _ = _ := by rw [← zpow_add₀ hten, Int.add_comm]
    exact ((zpow_lt_zpow_iff_right₀ hone).mp hlt).le
  · have hlt : (10 : ℚ) ^ (exponent + (digitCount digits : Int) - 1) < 10 ^ (329 : Int) := by
      calc (10 : ℚ) ^ (exponent + (digitCount digits : Int) - 1)
          = 10 ^ ((digitCount digits : Int) - 1) * 10 ^ exponent := by
            rw [← zpow_add₀ hten, sub_add_eq_add_sub, Int.add_comm exponent]
        _ ≤ digits * 10 ^ exponent := mul_le_mul_of_nonneg_right hdlow hpow.le
        _ < 10 ^ (329 : Int) := hhigh.trans_le hlarge
    have hpoint := (zpow_lt_zpow_iff_right₀ hone).mp hlt
    omega

/-- Every decimal in the interval of a double is read as it. -/
theorem ofDecimal_of_reads {negative : Bool} {m : Nat} {e : Int}
    (hcanonical : (Double.finite negative m e).IsCanonical) (hm : m ≠ 0) {digits : Nat}
    {exponent : Int} (h : Reads m e ((digits : ℚ) * 10 ^ exponent / 2 ^ e)) :
    ofDecimal negative digits exponent = .finite negative m e := by
  have hdigits : digits ≠ 0 := by
    rintro rfl
    have hhalf := h.half_le hm
    simp only [Nat.cast_zero, zero_mul, zero_div] at hhalf
    linarith
  obtain ⟨hlow, hhigh⟩ := point_bounds hcanonical hm hdigits h
  unfold digitCount at hlow hhigh
  unfold ofDecimal
  simp only
  rw [if_neg (by omega), if_neg (by omega)]
  apply nearest_of_reads (tenTo_pos _).ne' hcanonical hm
  rw [decimal_ratio]
  exact h

theorem isCanonical_ofDecimal (negative : Bool) (digits : Nat) (exponent : Int) :
    (ofDecimal negative digits exponent).IsCanonical := by
  unfold ofDecimal
  simp only
  split
  · exact isCanonical_zero negative
  · split
    · trivial
    · exact isCanonical_nearest _ _ _

end BlockScript.Double
