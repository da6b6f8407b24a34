-- Manifests on disk, written and read. No line end is lost on the way, and so a
-- manifest that is saved loads with the fields that it was saved with.
import BlockScript.Project.Manifest
import BlockScript.Proofs.Documents
import BlockScript.Proofs.ManifestSafety

namespace BlockScript

/-! ## Line ends -/

/-- The only line ends in the text are newlines. -/
def Text.HasPlainEnds (t : Text) : Prop := .char '\r' ∉ t

instance (t : Text) : Decidable t.HasPlainEnds := inferInstanceAs (Decidable (_ ∉ _))

@[simp] theorem plainEnds_append (s t : Text) :
    Text.HasPlainEnds (s ++ t) ↔ s.HasPlainEnds ∧ t.HasPlainEnds := by
  simp [Text.HasPlainEnds]

@[simp] theorem plainEnds_ofChars (cs : List Char) :
    (Text.ofChars cs).HasPlainEnds ↔ '\r' ∉ cs := by
  simp [Text.HasPlainEnds, Text.ofChars]

@[simp] theorem plainEnds_ofString (s : String) :
    (Text.ofString s).HasPlainEnds ↔ '\r' ∉ s.toList := plainEnds_ofChars s.toList

@[simp] theorem plainEnds_newLine (depth : Nat) : (newLine depth).HasPlainEnds := by
  simp [Text.HasPlainEnds, newLine, Text.spaces]

theorem plainNewlines_eq {t : Text} (h : t.HasPlainEnds) : plainNewlines t = t := by
  induction t with
  | nil => rfl
  | cons g t ih =>
    obtain ⟨hg, ht⟩ : .char '\r' ≠ g ∧ Text.HasPlainEnds t := by
      simpa [Text.HasPlainEnds] using h
    rw [plainNewlines, if_neg hg.symm, ih ht]
    intro rest heq
    exact absurd heq.symm hg

/-- A control is never left as it is in a quoted text. -/
@[simp] theorem plainEnds_quoted (t : Text) : t.quoted.HasPlainEnds := by
  have hglyph : ∀ g : Glyph, g.quoted.HasPlainEnds := by
    intro g
    unfold Glyph.quoted
    cases h : g.escape? with
    | none =>
      intro hmem
      rw [← List.mem_singleton.mp hmem] at h
      cases h
    | some e =>
      have hhex : ∀ n, (Text.hex 4 n).HasPlainEnds := by
        intro n hmem
        exact absurd (Name.isWord_hex 4 n _ hmem) (by decide)
      unfold Glyph.escape? at h
      repeat' split at h
      all_goals cases h
      all_goals simp [hhex]
  have hglyphs : Text.HasPlainEnds (t.flatMap Glyph.quoted) := by
    simpa [Text.HasPlainEnds] using fun g _ => hglyph g
  simp [Text.quoted, hglyphs]

theorem plainEnds_signed {m : Magnitude} (h : m.Proper) (negative : Bool) :
    (signText negative ++ Text.ofChars m.chars : Text).HasPlainEnds := by
  have hsign : (signText negative).HasPlainEnds := by cases negative <;> decide
  simp [hsign, not_mem_chars h (c := '\r') (by decide) (by decide)]

theorem plainEnds_scalar {v : Json} {t : Text} (h : v.scalar? = some t) : t.HasPlainEnds := by
  match v with
  | .null | .bool true | .bool false => cases h; decide
  | .int n =>
    cases h
    have hsigned := plainEnds_signed (toDigits_proper n.natAbs) (n < 0)
    rwa [chars_decimal, fractionChars, Option.getD_none, List.append_nil, List.append_nil,
      ← ofInt_eq] at hsigned
  | .double .nan | .double (.infinity true) | .double (.infinity false) => cases h; decide
  | .double (.finite negative m e) =>
    cases h
    rw [Double.documented_finite]
    exact plainEnds_signed (Double.finiteMagnitude_proper m e) negative
  | .str t =>
    cases h
    exact plainEnds_quoted t

mutual

/-- A document has no line ends but newlines. -/
theorem plainEnds_text (depth : Nat) : (v : Json) → (v.text depth).HasPlainEnds
  | .arr [] => by simp [Json.text]
  | .arr (v :: rest) => by
    simp [Json.text, plainEnds_text (depth + 1) v, plainEnds_itemsTail depth rest]
  | .obj [] => by simp [Json.text]
  | .obj ((k, v) :: rest) => by
    simp [Json.text, plainEnds_text (depth + 1) v, plainEnds_fieldsTail depth rest]
  | .null => plainEnds_scalar (v := .null) rfl
  | .bool true => plainEnds_scalar (v := .bool true) rfl
  | .bool false => plainEnds_scalar (v := .bool false) rfl
  | .int n => plainEnds_scalar (v := .int n) rfl
  | .double d => plainEnds_scalar (v := .double d) rfl
  | .str t => plainEnds_scalar (v := .str t) rfl

theorem plainEnds_itemsTail (depth : Nat) :
    (items : List Json) → (Json.itemsTail depth items).HasPlainEnds
  | [] => by simp [Json.itemsTail]
  | v :: rest => by
    simp [Json.itemsTail, plainEnds_text (depth + 1) v, plainEnds_itemsTail depth rest]

theorem plainEnds_fieldsTail (depth : Nat) :
    (fields : List (Text × Json)) → (Json.fieldsTail depth fields).HasPlainEnds
  | [] => by simp [Json.fieldsTail]
  | (k, v) :: rest => by
    simp [Json.fieldsTail, plainEnds_text (depth + 1) v, plainEnds_fieldsTail depth rest]

end

/-! ## Saved manifests -/

/-- Pieces that go out to the last one are the bytes of the text that they make up. -/
theorem utf8_of_encodePieces {pieces : List Text}
    (h : (Disk.encodePieces pieces).2 = .ok ()) :
    Text.utf8 pieces.flatten = .ok (Disk.encodePieces pieces).1 := by
  have hpieces := (encodePieces_ok_iff pieces).mp h
  have hbytes : (Disk.encodePieces pieces).1
      = pieces.flatten.flatMap fun g => utf8Bytes g.code := by
    clear h
    induction pieces with
    | nil => rfl
    | cons t rest ih =>
      obtain ⟨ht, hrest⟩ := List.forall_mem_cons.mp hpieces
      rw [List.flatten_cons, List.flatMap_append, ← ih hrest, Disk.encodePieces, Text.utf8,
        Text.encodeError_eq_none_iff.mpr ht]
  have hhalf : Text.NoHalf pieces.flatten := by
    intro g hg
    obtain ⟨t, ht, hmem⟩ := List.mem_flatten.mp hg
    exact hpieces t ht g hmem
  rw [Text.utf8, Text.encodeError_eq_none_iff.mpr hhalf, hbytes]

/-- A canonical manifest that was saved to the end is loaded as it was saved. -/
theorem loadManifest_of_saved {d : Disk} {path : Text} {fields : List (Text × Json)}
    (hcanonical : (Json.obj fields).IsCanonical)
    (hsaved : (Disk.encodePieces ((Json.obj fields).pieces 0)).2 = .ok ())
    (hfile : d.file? path = some (Disk.encodePieces ((Json.obj fields).pieces 0)).1) :
    d.loadManifest path = .ok fields := by
  have hbytes := ofUtf8_of_utf8 (utf8_of_encodePieces hsaved)
  have hread := readDocument_indented hcanonical
  rw [indented_eq] at hread
  rw [flatten_pieces] at hbytes
  unfold Disk.loadManifest
  rw [hfile]
  simp only [hbytes, Except.mapError, Json.read, bind, Except.bind,
    plainNewlines_eq (plainEnds_text 0 _), hread]
  rfl

theorem canonical_of_loadManifest {d : Disk} {path : Text} {fields : List (Text × Json)}
    (h : d.loadManifest path = .ok fields) : (Json.obj fields).IsCanonical := by
  unfold Disk.loadManifest at h
  split at h
  · cases h
  · obtain ⟨text, -, h⟩ := ok_of_bind_ok h
    obtain ⟨v, hread, h⟩ := ok_of_bind_ok h
    have hv : v.IsCanonical := by
      unfold Json.read at hread
      cases hdocument : readDocument (plainNewlines text) with
      | error e =>
        rw [hdocument] at hread
        cases hread
      | ok w =>
        rw [hdocument] at hread
        cases hread
        exact canonical_of_readDocument hdocument
    cases v with
    | obj fields' =>
      cases h
      exact hv
    | _ => cases h

end BlockScript
