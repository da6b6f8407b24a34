-- UTF-8, written and read back. The bytes of a text without halves are read as
-- that text, and so two such texts have different bytes, in paths as elsewhere.
import BlockScript.Proofs.Names
import Mathlib.Data.List.Basic

namespace BlockScript

/-! ## Bytes -/

theorem isContinuation_iff {b : UInt8} :
    isContinuation b = true ↔ 0x80 ≤ b.toNat ∧ b.toNat < 0xC0 := by
  simp [isContinuation, UInt8.le_iff_toNat_le, UInt8.lt_iff_toNat_lt]

theorem secondFits_iff {a b : UInt8} :
    secondFits a b = true ↔ (0x80 ≤ b.toNat ∧ b.toNat < 0xC0) ∧
      (a.toNat = 0xE0 → 0xA0 ≤ b.toNat) ∧ (a.toNat = 0xED → b.toNat < 0xA0) ∧
      (a.toNat = 0xF0 → 0x90 ≤ b.toNat) ∧ (a.toNat = 0xF4 → b.toNat < 0x90) := by
  simp only [secondFits, Bool.and_eq_true, isContinuation_iff, beq_iff_eq, ← UInt8.toNat_inj]
  refine and_congr_right fun _ => ?_
  split
  · simp_all [UInt8.le_iff_toNat_le]
  · split
    · simp_all [UInt8.lt_iff_toNat_lt]
    · split
      · simp_all [UInt8.le_iff_toNat_le]
      · split
        · simp_all [UInt8.lt_iff_toNat_lt]
        · simp_all

theorem sequenceLength_eq (b : UInt8) :
    sequenceLength? b =
      if b.toNat < 0x80 then some 1
      else if b.toNat < 0xC2 then none
      else if b.toNat < 0xE0 then some 2
      else if b.toNat < 0xF0 then some 3
      else if b.toNat < 0xF5 then some 4
      else none := by
  simp only [sequenceLength?, UInt8.lt_iff_toNat_lt]
  rfl

/-! ## Characters -/

theorem code_lt (g : Glyph) : g.code < 0x110000 := by
  cases g with
  | char c =>
    rcases c.valid with h | h
    · exact Nat.lt_trans h (by decide)
    · exact h.2
  | half n =>
    simp only [Glyph.code]
    omega

theorem ofCode_code (g : Glyph) : Glyph.ofCode g.code = g := by
  cases g with
  | half n =>
    have hrange : 0xD800 + n.val - 0xD800 < 0x800 ∧ 0xD800 ≤ 0xD800 + n.val := by omega
    unfold Glyph.ofCode Glyph.code
    rw [dif_pos hrange]
    simp
  | char c =>
    have hlt : c.toNat < 0x110000 := code_lt (.char c)
    have hrange : ¬ (c.toNat - 0xD800 < 0x800 ∧ 0xD800 ≤ c.toNat) := by
      have hvalid : c.toNat.isValidChar := c.valid
      unfold Nat.isValidChar at hvalid
      omega
    unfold Glyph.ofCode Glyph.code
    rw [dif_neg hrange, if_pos hlt, Char.ofNat_toNat]

theorem lead_one {b : UInt8} (h : b.toNat < 0x80) (rest : List UInt8) :
    Lead.of b rest = .glyph (Glyph.ofCode b.toNat) 0 := by
  unfold Lead.of
  rw [sequenceLength_eq, if_pos h]
  cases rest <;> rfl

theorem lead_two {a b : UInt8} (ha : 0xC2 ≤ a.toNat ∧ a.toNat < 0xE0)
    (hb : isContinuation b = true) (rest : List UInt8) :
    Lead.of a (b :: rest) = .glyph (Glyph.ofCode (pushBits (a.toNat - 0xC0) b)) 1 := by
  have hfits : secondFits a b = true :=
    secondFits_iff.mpr ⟨isContinuation_iff.mp hb, by omega, by omega, by omega, by omega⟩
  unfold Lead.of
  rw [sequenceLength_eq, if_neg (by omega), if_neg (by omega), if_pos ha.2]
  simp only [hfits, if_true]

theorem lead_three {a b c : UInt8} (ha : 0xE0 ≤ a.toNat ∧ a.toNat < 0xF0)
    (hb : secondFits a b = true) (hc : isContinuation c = true) (rest : List UInt8) :
    Lead.of a (b :: c :: rest)
      = .glyph (Glyph.ofCode (pushBits (pushBits (a.toNat - 0xE0) b) c)) 2 := by
  unfold Lead.of
  rw [sequenceLength_eq, if_neg (by omega), if_neg (by omega), if_neg (by omega), if_pos ha.2]
  simp only [hb, hc, Bool.not_true, Bool.false_eq_true, if_false]

theorem lead_four {a b c d : UInt8} (ha : 0xF0 ≤ a.toNat ∧ a.toNat < 0xF5)
    (hb : secondFits a b = true) (hc : isContinuation c = true) (hd : isContinuation d = true)
    (rest : List UInt8) :
    Lead.of a (b :: c :: d :: rest)
      = .glyph (Glyph.ofCode (pushBits (pushBits (pushBits (a.toNat - 0xF0) b) c) d)) 3 := by
  unfold Lead.of
  rw [sequenceLength_eq, if_neg (by omega), if_neg (by omega), if_neg (by omega),
    if_neg (by omega), if_pos ha.2]
  simp only [hb, hc, hd, Bool.not_true, Bool.false_eq_true, if_false]

theorem toNat_toUInt8 {m : Nat} (h : m < 256) : m.toUInt8.toNat = m := UInt8.toNat_ofNat_of_lt' h

theorem toNat_continuation (m : Nat) : (0x80 + m % 0x40).toUInt8.toNat = 0x80 + m % 0x40 :=
  toNat_toUInt8 (by omega)

theorem isContinuation_byte (m : Nat) : isContinuation (0x80 + m % 0x40).toUInt8 = true := by
  rw [isContinuation_iff, toNat_continuation]
  omega

theorem lead_bytes_two {n : Nat} (hlow : 0x80 ≤ n) (hhigh : n < 0x800) (rest : List UInt8) :
    Lead.of (0xC0 + n / 0x40).toUInt8 ((0x80 + n % 0x40).toUInt8 :: rest)
      = .glyph (Glyph.ofCode n) 1 := by
  have ha := toNat_toUInt8 (m := 0xC0 + n / 0x40) (by omega)
  have hcode : pushBits (0xC0 + n / 0x40 - 0xC0) (0x80 + n % 0x40).toUInt8 = n := by
    unfold pushBits
    rw [toNat_continuation]
    omega
  rw [lead_two (by omega) (isContinuation_byte n), ha, hcode]

theorem lead_bytes_three {n : Nat} (hlow : 0x800 ≤ n) (hhigh : n < 0x10000)
    (hhalf : ¬ (0xD800 ≤ n ∧ n < 0xE000)) (rest : List UInt8) :
    Lead.of (0xE0 + n / 0x1000).toUInt8
      ((0x80 + n / 0x40 % 0x40).toUInt8 :: (0x80 + n % 0x40).toUInt8 :: rest)
      = .glyph (Glyph.ofCode n) 2 := by
  have ha := toNat_toUInt8 (m := 0xE0 + n / 0x1000) (by omega)
  have hb : secondFits (0xE0 + n / 0x1000).toUInt8 (0x80 + n / 0x40 % 0x40).toUInt8 = true := by
    rw [secondFits_iff, ha, toNat_continuation]
    omega
  have hcode : pushBits (pushBits (0xE0 + n / 0x1000 - 0xE0) (0x80 + n / 0x40 % 0x40).toUInt8)
      (0x80 + n % 0x40).toUInt8 = n := by
    unfold pushBits
    rw [toNat_continuation, toNat_continuation]
    omega
  rw [lead_three (by omega) hb (isContinuation_byte n), ha, hcode]

theorem lead_bytes_four {n : Nat} (hlow : 0x10000 ≤ n) (hhigh : n < 0x110000)
    (rest : List UInt8) :
    Lead.of (0xF0 + n / 0x40000).toUInt8 ((0x80 + n / 0x1000 % 0x40).toUInt8
      :: (0x80 + n / 0x40 % 0x40).toUInt8 :: (0x80 + n % 0x40).toUInt8 :: rest)
      = .glyph (Glyph.ofCode n) 3 := by
  have ha := toNat_toUInt8 (m := 0xF0 + n / 0x40000) (by omega)
  have hb : secondFits (0xF0 + n / 0x40000).toUInt8 (0x80 + n / 0x1000 % 0x40).toUInt8
      = true := by
    rw [secondFits_iff, ha, toNat_continuation]
    omega
  have hcode : pushBits (pushBits (pushBits (0xF0 + n / 0x40000 - 0xF0)
      (0x80 + n / 0x1000 % 0x40).toUInt8) (0x80 + n / 0x40 % 0x40).toUInt8)
      (0x80 + n % 0x40).toUInt8 = n := by
    unfold pushBits
    rw [toNat_continuation, toNat_continuation, toNat_continuation]
    omega
  rw [lead_four (by omega) hb (isContinuation_byte _) (isContinuation_byte n), ha, hcode]

/-- The bytes of a code point that is no half are one character, whatever follows them. -/
theorem lead_utf8Bytes {n : Nat} (hn : n < 0x110000) (hhalf : ¬ (0xD800 ≤ n ∧ n < 0xE000)) :
    ∃ b more, utf8Bytes n = b :: more ∧
      ∀ rest, Lead.of b (more ++ rest) = .glyph (Glyph.ofCode n) more.length := by
  unfold utf8Bytes
  by_cases hone : n < 0x80
  · rw [if_pos hone]
    refine ⟨_, _, rfl, fun rest => ?_⟩
    have hb := toNat_toUInt8 (m := n) (by omega)
    rw [lead_one (by omega), hb]
    rfl
  rw [if_neg hone]
  by_cases htwo : n < 0x800
  · rw [if_pos htwo]
    exact ⟨_, _, rfl, lead_bytes_two (Nat.not_lt.mp hone) htwo⟩
  rw [if_neg htwo]
  by_cases hthree : n < 0x10000
  · rw [if_pos hthree]
    exact ⟨_, _, rfl, lead_bytes_three (Nat.not_lt.mp htwo) hthree hhalf⟩
  · rw [if_neg hthree]
    exact ⟨_, _, rfl, lead_bytes_four (Nat.not_lt.mp hthree) hn⟩

/-! ## Texts -/

theorem readUtf8From_skip (position : Nat) (passed rest : List UInt8) :
    readUtf8From position passed.length (passed ++ rest)
      = readUtf8From (position + passed.length) 0 rest := by
  induction passed generalizing position with
  | nil => rfl
  | cons b passed ih =>
    rw [List.length_cons, List.cons_append, readUtf8From, ih]
    congr 1
    omega

theorem not_half_code {g : Glyph} (h : g.isHalf = false) :
    ¬ (0xD800 ≤ g.code ∧ g.code < 0xE000) := by
  cases g with
  | half n => cases h
  | char c =>
    have hvalid : c.toNat.isValidChar := c.valid
    unfold Nat.isValidChar at hvalid
    simp only [Glyph.code]
    omega

/-- A text without halves is read back from its bytes. -/
theorem readUtf8From_flatMap {t : Text} (h : t.NoHalf) (position : Nat) :
    readUtf8From position 0 (t.flatMap fun g => utf8Bytes g.code) = .ok t := by
  induction t generalizing position with
  | nil => rfl
  | cons g t ih =>
    obtain ⟨hg, ht⟩ := (Text.noHalf_cons g t).mp h
    obtain ⟨b, more, hbytes, hlead⟩ := lead_utf8Bytes (code_lt g) (not_half_code hg)
    rw [List.flatMap_cons, hbytes, List.cons_append, readUtf8From, hlead]
    simp only [readUtf8From_skip, ih ht, ofCode_code]
    rfl

theorem ofUtf8_of_utf8 {t : Text} {bytes : List UInt8} (h : t.utf8 = .ok bytes) :
    Text.ofUtf8 bytes = .ok t := by
  unfold Text.utf8 at h
  split at h
  · rename_i hnone
    cases h
    exact readUtf8From_flatMap (Text.encodeError_eq_none_iff.mp hnone) 0
  · cases h

/-! ## Paths -/

theorem pathBytes_of_noHalf {t : Text} (h : t.NoHalf) :
    t.pathBytes = t.flatMap fun g => utf8Bytes g.code := by
  refine List.flatMap_congr fun g hg => ?_
  cases g with
  | char c => rfl
  | half n => cases h _ hg

/-- Names without halves are told apart by their bytes. -/
theorem pathBytes_injective {s t : Text} (hs : s.NoHalf) (ht : t.NoHalf)
    (h : s.pathBytes = t.pathBytes) : s = t := by
  rw [pathBytes_of_noHalf hs, pathBytes_of_noHalf ht] at h
  have hread := readUtf8From_flatMap hs 0
  rw [h, readUtf8From_flatMap ht] at hread
  exact (Except.ok.inj hread).symm

end BlockScript
