-- The glyphs of texts and names. A text without halves has a UTF-8 form, a
-- cleaned id keeps only glyphs of its class, and a digest has only letters and
-- digits.
import BlockScript.Name
import Mathlib.Data.List.TakeWhile

namespace BlockScript

/-- A sequence succeeds only if its first step does. -/
theorem ok_of_bind_ok {ε α β : Type} {x : Except ε α} {f : α → Except ε β} {b : β}
    (h : (x >>= f) = .ok b) : ∃ a, x = .ok a ∧ f a = .ok b := by
  cases x with
  | error e => cases h
  | ok a => exact ⟨a, rfl, h⟩

theorem ok_of_mapError {ε ε' α : Type} {x : Except ε α} {f : ε → ε'} {a : α}
    (h : x.mapError f = .ok a) : x = .ok a := by
  cases x with
  | ok b =>
    cases h
    rfl
  | error e => cases h

theorem exists_of_isOk {ε α : Type} {x : Except ε α} (h : x.isOk = true) : ∃ a, x = .ok a := by
  cases x with
  | error e => cases h
  | ok a => exact ⟨a, rfl⟩

/-- A computation with a result that passes a test. -/
theorem exists_of_any {ε α : Type} {x : Except ε α} {p : α → Bool}
    (h : x.toOption.any p = true) : ∃ a, x = .ok a ∧ p a = true := by
  cases x with
  | error e => cases h
  | ok a => exact ⟨a, rfl, h⟩

/-! ## Texts without halves -/

namespace Text

/-- No half stands in the text, so it has a UTF-8 form. -/
def NoHalf (t : Text) : Prop := ∀ g ∈ t, g.isHalf = false

instance (t : Text) : Decidable t.NoHalf := inferInstanceAs (Decidable (∀ g ∈ t, _))

@[simp] theorem noHalf_nil : NoHalf [] := by simp [NoHalf]

@[simp] theorem noHalf_cons (g : Glyph) (t : Text) :
    NoHalf (g :: t) ↔ g.isHalf = false ∧ t.NoHalf := List.forall_mem_cons

@[simp] theorem noHalf_append (s t : Text) : NoHalf (s ++ t) ↔ s.NoHalf ∧ t.NoHalf :=
  List.forall_mem_append

@[simp] theorem noHalf_flatMap {α : Type} (f : α → Text) (l : List α) :
    NoHalf (l.flatMap f) ↔ ∀ a ∈ l, (f a).NoHalf := by
  induction l with
  | nil => simp
  | cons a rest ih => simp [ih]

@[simp] theorem noHalf_ofChars (cs : List Char) : NoHalf (ofChars cs) := by
  intro g hg
  obtain ⟨c, -, rfl⟩ := List.mem_map.mp hg
  rfl

@[simp] theorem noHalf_ofString (s : String) : NoHalf (ofString s) := noHalf_ofChars s.toList

theorem noHalf_of_isWord {t : Text} (h : ∀ g ∈ t, g.isWord = true) : t.NoHalf := by
  intro g hg
  cases g with
  | char c => rfl
  | half n => cases h _ hg

theorem errorAt_eq_none_iff {bad : Glyph → Bool} {t : Text} :
    t.errorAt? bad = none ↔ ∀ g ∈ t, bad g = false := by
  have hnil : t.dropWhile (fun g => !bad g) = [] ↔ ∀ g ∈ t, bad g = false := by
    simp [List.dropWhile_eq_nil_iff]
  rw [← hnil]
  unfold errorAt?
  split
  · simp [*]
  · simp [*]

/-- A text has a UTF-8 form unless a half stands alone in it. -/
theorem encodeError_eq_none_iff {t : Text} : t.encodeError? = none ↔ t.NoHalf :=
  errorAt_eq_none_iff

/-- A path can be handed over unless a half in it stands for no byte. -/
theorem pathError_eq_none_iff {t : Text} :
    t.pathError? = none ↔ ∀ g ∈ t, g.isUnpathable = false := errorAt_eq_none_iff

theorem utf8_of_noHalf {t : Text} (h : t.NoHalf) : ∃ bytes, t.utf8 = .ok bytes := by
  rw [utf8, encodeError_eq_none_iff.mpr h]
  exact ⟨_, rfl⟩

end Text

/-! ## Numbers -/

namespace Text

theorem ofNat_injective {m n : Nat} (h : ofNat m = ofNat n) : m = n := by
  have hdigits : Nat.toDigits 10 m = Nat.toDigits 10 n :=
    (List.map_inj_right fun _ _ => Glyph.char.inj).mp h
  have hvalue := congrArg (fun ds => Nat.ofDigitChars 10 ds 0) hdigits
  simpa [Nat.ofDigitChars_ten_toDigits] using hvalue

end Text

/-! ## Names -/

namespace Name

theorem isWord_hex (width n : Nat) : ∀ g ∈ Text.hex width n, g.isWord = true := by
  induction width generalizing n with
  | zero => simp [Text.hex]
  | succ width ih =>
    have hall : ∀ k : Fin 16, (Glyph.char (Nat.digitChar k)).isWord = true := by decide
    intro g hg
    rcases List.mem_append.mp hg with hg | hg
    · exact ih _ g hg
    · rw [List.mem_singleton.mp hg]
      exact hall ⟨n % 16, Nat.mod_lt _ (by decide)⟩

theorem isWord_digest {id t : Text} (h : digest id = .ok t) : ∀ g ∈ t, g.isWord = true := by
  obtain ⟨bytes, -, h⟩ := ok_of_bind_ok h
  cases h
  intro g hg
  obtain ⟨w, -, hg⟩ := List.mem_flatMap.mp (List.mem_of_mem_take hg)
  exact isWord_hex 8 w.toNat g hg

/-- A class that has every word glyph has every glyph of an id that was cleaned for it. -/
theorem mem_digested {keep : Glyph → Bool} (hkeep : ∀ g, g.isWord = true → keep g = true)
    {id t : Text} (h : digested keep id = .ok t) : ∀ g ∈ t, keep g = true := by
  obtain ⟨d, hd, h⟩ := ok_of_bind_ok h
  cases h
  intro g hg
  simp only [List.mem_append] at hg
  rcases hg with (hg | hg) | hg
  · obtain ⟨g', -, rfl⟩ := List.mem_map.mp hg
    split
    · assumption
    · exact hkeep _ rfl
  · rw [List.mem_singleton.mp hg]
    exact hkeep _ rfl
  · exact hkeep g (isWord_digest hd g hg)

end Name

theorem mem_dropFinalNewline {t : Text} {g : Glyph} (h : g ∈ t) :
    g ∈ t.dropFinalNewline ∨ g = .char '\n' := by
  induction t with
  | nil => cases h
  | cons g' rest ih =>
    cases rest with
    | nil =>
      rw [List.mem_singleton.mp h]
      by_cases hg : g' = .char '\n'
      · exact .inr hg
      · simp [Text.dropFinalNewline, hg]
    | cons g'' rest =>
      rcases List.mem_cons.mp h with rfl | h
      · simp [Text.dropFinalNewline]
      · rcases ih h with h | h
        · exact .inl (List.mem_cons_of_mem _ h)
        · exact .inr h

end BlockScript
