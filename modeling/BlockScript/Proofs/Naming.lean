-- Which names ids get. A name is an identifier of the language unless a clean
-- id has a newline at its end, which the name then keeps. Two names are the
-- same only if one id is clean and spells out what the other is named by.
import BlockScript.Proofs.Meaning
import Mathlib.Algebra.Group.Nat.Defs

namespace BlockScript

/-! ## Clean ids -/

theorem eq_dropFinalNewline (t : Text) :
    t = t.dropFinalNewline ∨ t = t.dropFinalNewline ++ "\n" := by
  fun_induction Text.dropFinalNewline t with
  | case1 => exact .inl rfl
  | case2 => exact .inr rfl
  | case3 g hg => exact .inl rfl
  | case4 g rest hrest ih =>
    rcases ih with h | h
    · exact .inl (congrArg _ h)
    · exact .inr (congrArg _ h)

theorem dropFinalNewline_append (t : Text) : (t ++ "\n").dropFinalNewline = t := by
  induction t with
  | nil => rfl
  | cons g rest ih =>
    cases rest with
    | nil => rfl
    | cons h rest => exact congrArg _ ih

theorem newline_not_mem_of_isWord {t : Text} (h : ∀ g ∈ t, g.isWord = true) : .char '\n' ∉ t :=
  fun hmem => absurd (h _ hmem) (by decide)

namespace Name

/-- A clean id is made of word glyphs, and perhaps a newline after them. -/
theorem isClean_iff {id : Text} :
    isClean id = true ↔
      ∃ body, body ≠ [] ∧ (∀ g ∈ body, g.isWord = true) ∧ (id = body ∨ id = body ++ "\n") := by
  simp only [isClean, Bool.and_eq_true, Bool.not_eq_true', List.isEmpty_eq_false_iff,
    List.all_eq_true]
  constructor
  · rintro ⟨hne, hwords⟩
    exact ⟨_, hne, hwords, eq_dropFinalNewline id⟩
  · rintro ⟨body, hne, hwords, rfl | rfl⟩
    · rw [dropFinalNewline_eq (newline_not_mem_of_isWord hwords)]
      exact ⟨hne, hwords⟩
    · rw [dropFinalNewline_append]
      exact ⟨hne, hwords⟩

/-- An id of word glyphs that has a newline at its end. -/
def EndsLine (id : Json) : Prop :=
  ∃ body : Text, body ≠ [] ∧ (∀ g ∈ body, g.isWord = true) ∧ id = .str (body ++ "\n")

theorem not_endsLine_of_words {id : Text} (h : ∀ g ∈ id, g.isWord = true) :
    ¬ EndsLine (.str id) := by
  rintro ⟨body, -, -, heq⟩
  cases heq
  exact newline_not_mem_of_isWord h (by simp [Text.ofString])

/-! ## Stems -/

theorem digest_of_noHalf {id : Text} (h : id.NoHalf) : ∃ d, digest id = .ok d := by
  obtain ⟨bytes, hbytes⟩ := Text.utf8_of_noHalf h
  exact ⟨Digest.short bytes, by simp only [digest, hbytes]; rfl⟩

theorem digested_eq (keep : Glyph → Bool) {id d : Text} (hd : digest id = .ok d) :
    digested keep id = .ok (cleaned keep id ++ "_" ++ d) := by
  simp only [digested, hd]
  rfl

/-- What follows the family in the name of an id with the digest `d`. -/
def stem (id d : Text) : Text :=
  if isClean id then id else cleaned Glyph.isWord id ++ "_" ++ d

theorem make_stable (family : Text) {id d : Text} (hstable : isStable (.str id) = true)
    (hd : digest id = .ok d) (drawn : Nat) :
    make family (.str id) drawn = .ok (family ++ "_" ++ stem id d) := by
  unfold make stem
  simp only [hstable, digested_eq Glyph.isWord hd]
  cases isClean id <;> rfl

theorem make_unstable (family : Text) {id : Json} (h : isStable id = false) (drawn : Nat) :
    make family id drawn = .ok (anonymous family drawn) := by
  cases id with
  | str t => simp [make, h]
  | _ => rfl

/-! ## Names are identifiers -/

theorem isWord_append {family t : Text} (hfamily : IsWord family)
    (ht : ∀ g ∈ t, g.isWord = true) : IsWord (family ++ "_" ++ t) := by
  obtain ⟨c, cs, rfl, hc, hcs⟩ := hfamily
  change IsWord (.char c :: (Text.ofChars cs ++ "_" ++ t))
  refine isWord_cons_iff.mpr ⟨hc, ?_⟩
  intro g hg
  simp only [List.mem_append] at hg
  rcases hg with (hg | hg) | hg
  · obtain ⟨d, hd, rfl⟩ := List.mem_map.mp hg
    exact hcs d hd
  · rw [List.mem_singleton.mp hg]
    rfl
  · exact isNamePart_of_isWord (ht g hg)

theorem not_isWord_of_newline {t : Text} (h : .char '\n' ∈ t) : ¬ IsWord t := by
  rintro ⟨c, cs, rfl, hc, hcs⟩
  obtain ⟨d, hd, heq⟩ := List.mem_map.mp h
  cases heq
  rcases List.mem_cons.mp hd with rfl | hd
  · exact absurd hc (by decide)
  · exact absurd (hcs _ hd) (by decide)

theorem isWord_anonymous {family : Text} (hfamily : IsWord family) (drawn : Nat) :
    IsWord (anonymous family drawn) := by
  have hanon : ∀ g ∈ Text.ofString "anon_", g.isWord = true := by decide
  have hwords : ∀ g ∈ Text.ofString "anon_" ++ Text.hex 8 drawn, g.isWord = true := by
    intro g hg
    rcases List.mem_append.mp hg with hg | hg
    · exact hanon g hg
    · exact isWord_hex 8 drawn g hg
  have heq : anonymous family drawn = family ++ "_" ++ ("anon_" ++ Text.hex 8 drawn) := by
    simp [anonymous, Text.ofString]
  rw [heq]
  exact isWord_append hfamily hwords

/-- The name of an id in a family is an identifier, or it is one with the newline of its id. -/
theorem make_cases {family : Text} (hfamily : IsWord family) (drawn : Nat) {id : Json}
    (hid : ∀ t, id = .str t → t.NoHalf) :
    ∃ name, make family id drawn = .ok name ∧
      ((¬ EndsLine id ∧ IsWord name) ∨
        (EndsLine id ∧ ∃ word, IsWord word ∧ name = word ++ "\n")) := by
  cases id with
  | str t =>
    cases hstable : isStable (.str t) with
    | false =>
      refine ⟨_, make_unstable family hstable drawn, .inl ⟨?_, ?_⟩⟩
      · rintro ⟨body, hne, hwords, heq⟩
        cases heq
        obtain ⟨g, rest, rfl⟩ := List.exists_cons_of_ne_nil hne
        simp [isStable, hwords g List.mem_cons_self] at hstable
      · exact isWord_anonymous hfamily drawn
    | true =>
      obtain ⟨d, hd⟩ := digest_of_noHalf (hid t rfl)
      refine ⟨_, make_stable family hstable hd drawn, ?_⟩
      unfold stem
      cases hclean : isClean t with
      | true =>
        obtain ⟨body, hne, hwords, rfl | rfl⟩ := isClean_iff.mp hclean
        · exact .inl ⟨not_endsLine_of_words hwords, isWord_append hfamily hwords⟩
        · exact .inr ⟨⟨body, hne, hwords, rfl⟩, _, isWord_append hfamily hwords,
            (List.append_assoc _ _ _).symm⟩
      | false =>
        have hstem := mem_digested (fun _ h => h) (digested_eq Glyph.isWord hd)
        refine .inl ⟨?_, isWord_append hfamily hstem⟩
        rintro ⟨body, hne, hwords, heq⟩
        cases heq
        rw [isClean_iff.mpr ⟨body, hne, hwords, .inr rfl⟩] at hclean
        cases hclean
  | _ =>
    refine ⟨anonymous family drawn, rfl, .inl ⟨?_, isWord_anonymous hfamily _⟩⟩
    rintro ⟨body, -, -, heq⟩
    cases heq

/-- Names of functions, parameters and local variables are identifiers, for every id and every
number drawn, unless a clean id ends with a newline. Then that newline follows an identifier. -/
theorem names_are_identifiers (id : Json) (drawn : Nat)
    (hid : ∀ t, id = .str t → t.NoHalf) :
    ∀ made ∈ [ofFunction id drawn, ofParam id drawn, ofLocal id drawn],
      ∃ name, made = .ok name ∧ (IsWord name ↔ ¬ EndsLine id) ∧
        (EndsLine id → ∃ word, IsWord word ∧ name = word ++ "\n") := by
  have hmake : ∀ family, IsWord family → ∃ name, make family id drawn = .ok name ∧
      (IsWord name ↔ ¬ EndsLine id) ∧
      (EndsLine id → ∃ word, IsWord word ∧ name = word ++ "\n") := by
    intro family hfamily
    obtain ⟨name, hname, ⟨hnot, hword⟩ | ⟨hends, word, hword, rfl⟩⟩ :=
      make_cases hfamily drawn hid
    · exact ⟨name, hname, by simp [hnot, hword], fun h => absurd h hnot⟩
    · have hnot : ¬ IsWord (word ++ "\n") := not_isWord_of_newline (by simp [Text.ofString])
      exact ⟨_, hname, by simp [hnot, hends], fun _ => ⟨word, hword, rfl⟩⟩
  intro made hmade
  simp only [List.mem_cons, List.not_mem_nil, or_false] at hmade
  rcases hmade with rfl | rfl | rfl
  · exact hmake "f" (by decide)
  · exact hmake "p" (by decide)
  · exact hmake "v" (by decide)

/-- An id with a blank in it is cleaned, and its name is an identifier. -/
theorem blank_id_has_an_identifier :
    let id : Text := "my var"
    (∀ t, Json.str id = .str t → t.NoHalf) ∧
    ofLocal (.str id) = .ok "v_my_var_372db9" ∧ IsWord "v_my_var_372db9" := by
  intro id
  have hid : ∀ t, Json.str id = .str t → t.NoHalf := by
    rintro t ⟨⟩
    decide
  obtain ⟨name, hname, hword, -⟩ :=
    names_are_identifiers (.str id) 0 hid (ofLocal (.str id)) (by simp)
  have hmade : ofLocal (.str id) = .ok "v_my_var_372db9" := by decide +kernel
  rw [hmade] at hname
  cases hname
  refine ⟨hid, hmade, hword.mpr ?_⟩
  rintro ⟨body, -, -, heq⟩
  have hlast := congrArg (fun v => v.text?.bind List.getLast?) heq
  simp [Json.text?, id, Text.ofString] at hlast

/-- The pattern of clean ids overlooks a newline at their end, and so the name has it too. -/
theorem newline_stays_in_the_name :
    ofLocal (.str "a\n") = .ok "v_a\n" ∧ ¬ IsWord "v_a\n" := by
  decide +kernel

/-! ## Names of different ids -/

theorem length_hex (width n : Nat) : (Text.hex width n).length = width := by
  induction width generalizing n with
  | zero => rfl
  | succ width ih => simp [Text.hex, ih]

theorem length_digest {id d : Text} (h : digest id = .ok d) : d.length = 6 := by
  obtain ⟨bytes, -, h⟩ := ok_of_bind_ok h
  cases h
  simp [Digest.short, Digest.State.hex, length_hex]

/-- The clean id `s` spells out what the other id `t` is named by: its cleaned form and its
digest. -/
def Imitates (s t : Text) : Prop :=
  isClean s = true ∧ isClean t = false ∧
    ∃ d, digest t = .ok d ∧ s = cleaned Glyph.isWord t ++ "_" ++ d

theorem imitates_iff {s t d : Text} (hd : digest t = .ok d) (hs : isClean s = true)
    (ht : isClean t = false) : Imitates s t ↔ s = cleaned Glyph.isWord t ++ "_" ++ d := by
  simp [Imitates, hs, ht, hd]

/-- Two ids whose digests differ have the same stem only if one imitates the other. -/
theorem stem_eq_iff {s t ds dt : Text} (hds : digest s = .ok ds) (hdt : digest t = .ok dt)
    (hne : ds ≠ dt) : stem s ds = stem t dt ↔ Imitates s t ∨ Imitates t s := by
  unfold stem
  cases hs : isClean s <;> cases ht : isClean t
  · -- both carry their digests, which are equally long
    have hnot : cleaned Glyph.isWord s ++ "_" ++ ds ≠ cleaned Glyph.isWord t ++ "_" ++ dt := by
      intro heq
      exact hne (List.append_inj_right' heq (by rw [length_digest hds, length_digest hdt]))
    simpa [Imitates, hs, ht] using hnot
  · have hnot : ¬ Imitates s t := fun h => by simp [h.1] at hs
    rw [or_iff_right hnot, imitates_iff hds ht hs]
    simp [eq_comm]
  · have hnot : ¬ Imitates t s := fun h => by simp [h.1] at ht
    rw [or_iff_left hnot, imitates_iff hdt hs ht]
    simp
  · have hnot : s ≠ t := by
      rintro rfl
      rw [hds] at hdt
      cases hdt
      exact hne rfl
    simp [Imitates, hs, ht, hnot]

/-- Usable ids whose digests differ have names of their own in every family, unless one of them is
clean and imitates the other. -/
theorem names_meet_iff_imitated (family s t ds dt : Text) (k l : Nat)
    (hs : isStable (.str s) = true) (ht : isStable (.str t) = true)
    (hds : digest s = .ok ds) (hdt : digest t = .ok dt) (hne : ds ≠ dt) :
    ∃ m n, make family (.str s) k = .ok m ∧ make family (.str t) l = .ok n ∧
      (m = n ↔ Imitates s t ∨ Imitates t s) := by
  refine ⟨_, _, make_stable family hs hds k, make_stable family ht hdt l, ?_⟩
  rw [List.append_right_inj, stem_eq_iff hds hdt hne]

/-- Two ids that are cleaned alike have names of their own. -/
theorem hyphen_and_blank_have_names_of_their_own :
    isStable (.str "a-b") = true ∧ isStable (.str "a b") = true ∧
    ∃ ds dt, digest "a-b" = .ok ds ∧ digest "a b" = .ok dt ∧ ds ≠ dt ∧
      ∃ m n, make "v" (.str "a-b") 0 = .ok m ∧ make "v" (.str "a b") 0 = .ok n ∧ m ≠ n := by
  have hds : digest "a-b" = .ok "34fafd" := by decide +kernel
  have hdt : digest "a b" = .ok "7dbde9" := by decide +kernel
  obtain ⟨m, n, hm, hn, hiff⟩ := names_meet_iff_imitated "v" "a-b" "a b" _ _ 0 0
    (by decide) (by decide) hds hdt (by decide)
  refine ⟨by decide, by decide, _, _, hds, hdt, by decide, m, n, hm, hn, ?_⟩
  rw [Ne, hiff]
  rintro (h | h)
  · exact absurd h.1 (by decide)
  · exact absurd h.1 (by decide)

/-- A clean id gets the name of the id that it imitates. -/
theorem imitated_name_is_shared :
    isStable (.str "a-b") = true ∧ isStable (.str "a_b_34fafd") = true ∧
    Text.ofString "a-b" ≠ "a_b_34fafd" ∧
    digest "a-b" = .ok "34fafd" ∧ digest "a_b_34fafd" ≠ .ok "34fafd" ∧
    make "v" (.str "a-b") 0 = make "v" (.str "a_b_34fafd") 0 := by
  decide +kernel

/-! ## Names without an id -/

theorem digitChar_inj :
    ∀ a < 16, ∀ b < 16, Nat.digitChar a = Nat.digitChar b → a = b := by
  decide

/-- The digits of two numbers are the same exactly if the numbers agree as far as the digits go. -/
theorem hex_eq_iff (width a b : Nat) :
    Text.hex width a = Text.hex width b ↔ a % 16 ^ width = b % 16 ^ width := by
  induction width generalizing a b with
  | zero => simp [Text.hex, Nat.mod_one]
  | succ width ih =>
    have hdigit : Nat.digitChar (a % 16) = Nat.digitChar (b % 16) ↔ a % 16 = b % 16 :=
      ⟨digitChar_inj _ (Nat.mod_lt _ (by decide)) _ (Nat.mod_lt _ (by decide)),
        congrArg Nat.digitChar⟩
    have hsplit : ∀ n, n % 16 ^ (width + 1) = n % 16 + 16 * (n / 16 % 16 ^ width) := by
      intro n
      rw [Nat.pow_succ', Nat.mod_mul]
    have hlast : Text.hex (width + 1) a = Text.hex (width + 1) b ↔
        Text.hex width (a / 16) = Text.hex width (b / 16) ∧
          Nat.digitChar (a % 16) = Nat.digitChar (b % 16) := by
      simp [Text.hex, List.append_singleton_inj]
    rw [hlast, ih, hdigit, hsplit, hsplit]
    omega

/-- Ids that no name can be made from get names of their own, as long as the numbers drawn for
them differ in the digits that are kept. -/
theorem unstable_names_meet_iff (family : Text) {s t : Json} (hs : isStable s = false)
    (ht : isStable t = false) (k l : Nat) :
    ∃ m n, make family s k = .ok m ∧ make family t l = .ok n ∧
      (m = n ↔ k % 16 ^ 8 = l % 16 ^ 8) := by
  refine ⟨_, _, make_unstable family hs k, make_unstable family ht l, ?_⟩
  rw [anonymous, anonymous, List.append_right_inj, hex_eq_iff]

end Name

end BlockScript
