-- Values that can be saved. A value goes out in pieces, and all of its pieces
-- have a UTF-8 form exactly if no text in it holds a half. A mark brings in no
-- other texts than its key and its file.
import BlockScript.Proofs.Entries

namespace BlockScript

/-! ## What is written without halves -/

namespace Text

@[simp] theorem noHalf_ofInt (n : Int) : NoHalf (ofInt n) := by
  cases n <;> simp [ofInt, ofNat, Glyph.isHalf]

@[simp] theorem noHalf_spaces (n : Nat) : NoHalf (spaces n) := by
  intro g hg
  rw [List.eq_of_mem_replicate hg]
  rfl

end Text

@[simp] theorem noHalf_newLine (depth : Nat) : (newLine depth).NoHalf := by
  simp [newLine, Glyph.isHalf]

@[simp] theorem noHalf_documented (d : Double) : d.documented.NoHalf := by
  have hdigits : ∀ x, (Double.Style.document.digits x).NoHalf := by
    intro x
    simp only [Double.Style.digits, Double.exponentText]
    split
    · split
      · simp
      · split <;> simp [Double.Style.document, Double.Style.plain]
    · simp
  cases d with
  | nan => exact Text.noHalf_ofString _
  | infinity negative =>
    cases negative <;>
      simp [Double.documented, Double.Style.write, Double.Style.document, Double.Style.plain]
  | finite negative m e => cases negative <;> simp [Double.documented, Double.Style.write, hdigits]

/-- An escape has no half, and a half has no escape. -/
theorem noHalf_quotedGlyph (g : Glyph) : g.quoted.NoHalf ↔ g.isHalf = false := by
  cases g with
  | half n =>
    have hnone : (Glyph.half n).escape? = none := by
      grind [Glyph.escape?, Glyph.code]
    simp [Glyph.quoted, hnone, Glyph.isHalf]
  | char c =>
    have hescape : ∀ t ∈ (Glyph.char c).escape?, t.NoHalf := by
      intro t ht
      unfold Glyph.escape? at ht
      repeat' split at ht
      all_goals cases ht
      all_goals simp [Text.noHalf_of_isWord (Name.isWord_hex 4 _)]
    have hquoted : (Glyph.char c).quoted.NoHalf := by
      unfold Glyph.quoted
      cases h : (Glyph.char c).escape? with
      | none => simp [Glyph.isHalf]
      | some t => exact hescape t h
    simp [hquoted, Glyph.isHalf]

@[simp] theorem noHalf_quoted (t : Text) : t.quoted.NoHalf ↔ t.NoHalf := by
  simp only [Text.quoted, Text.noHalf_append, Text.noHalf_ofString, Text.noHalf_flatMap,
    noHalf_quotedGlyph, true_and, and_true]
  rfl

/-! ## Values -/

mutual

/-- The texts in a value: its strings and the keys of its objects, at any depth. -/
def Json.texts : Json → List Text
  | .str t => [t]
  | .arr items => Json.itemTexts items
  | .obj fields => Json.fieldTexts fields
  | _ => []

def Json.itemTexts : List Json → List Text
  | [] => []
  | v :: rest => v.texts ++ Json.itemTexts rest

def Json.fieldTexts : List (Text × Json) → List Text
  | [] => []
  | (k, v) :: rest => k :: (v.texts ++ Json.fieldTexts rest)

end

/-- The value can be saved: every text in it has a UTF-8 form. -/
def Json.IsWritable (v : Json) : Prop := ∀ t ∈ v.texts, t.NoHalf

@[simp] theorem writable_arr_nil : (Json.arr []).IsWritable := by
  simp [Json.IsWritable, Json.texts, Json.itemTexts]

@[simp] theorem writable_arr_cons (v : Json) (rest : List Json) :
    (Json.arr (v :: rest)).IsWritable ↔ v.IsWritable ∧ (Json.arr rest).IsWritable := by
  simp only [Json.IsWritable, Json.texts, Json.itemTexts, List.forall_mem_append]

@[simp] theorem writable_obj_nil : (Json.obj []).IsWritable := by
  simp [Json.IsWritable, Json.texts, Json.fieldTexts]

@[simp] theorem writable_obj_cons (k : Text) (v : Json) (rest : List (Text × Json)) :
    (Json.obj ((k, v) :: rest)).IsWritable ↔
      k.NoHalf ∧ v.IsWritable ∧ (Json.obj rest).IsWritable := by
  simp only [Json.IsWritable, Json.texts, Json.fieldTexts, List.forall_mem_cons,
    List.forall_mem_append]

theorem noHalf_scalar {v : Json} {t : Text} (h : v.scalar? = some t) :
    t.NoHalf ↔ v.IsWritable := by
  cases v with
  | bool b => cases b <;> cases h <;> simp [Json.IsWritable, Json.texts]
  | arr items => cases h
  | obj fields => cases h
  | _ => cases h; simp [Json.IsWritable, Json.texts]

/-! ## Pieces -/

theorem noHalf_pieces_scalar {v : Json} {t : Text} (h : v.scalar? = some t) (depth : Nat) :
    (∀ p ∈ v.pieces depth, p.NoHalf) ↔ v.IsWritable := by
  have hpieces : v.pieces depth = [t] := by
    cases v with
    | arr items => cases h
    | obj fields => cases h
    | _ => simp [Json.pieces, h]
  rw [hpieces, List.forall_mem_singleton, noHalf_scalar h]

mutual

/-- The pieces of a value have a UTF-8 form exactly if its texts have one. -/
theorem noHalf_pieces (depth : Nat) :
    (v : Json) → ((∀ p ∈ v.pieces depth, p.NoHalf) ↔ v.IsWritable)
  | .arr [] => by simp [Json.pieces]
  | .arr (v :: rest) => by
    rw [Json.pieces, if_neg (by simp), List.forall_mem_append,
      noHalf_itemPieces (depth + 1) _ (by simp) (v :: rest)]
    simp
  | .obj [] => by simp [Json.pieces]
  | .obj (f :: rest) => by
    rw [Json.pieces, if_neg (by simp), List.forall_mem_cons, List.forall_mem_cons,
      List.forall_mem_append, noHalf_fieldPieces (depth + 1) (f :: rest)]
    simp
  | .null => noHalf_pieces_scalar rfl depth
  | .bool true => noHalf_pieces_scalar rfl depth
  | .bool false => noHalf_pieces_scalar rfl depth
  | .int n => noHalf_pieces_scalar rfl depth
  | .double d => noHalf_pieces_scalar rfl depth
  | .str t => noHalf_pieces_scalar rfl depth

theorem noHalf_itemPieces (depth : Nat) (before : Text) (hbefore : before.NoHalf) :
    (items : List Json) → ((∀ p ∈ Json.itemPieces depth before items, p.NoHalf) ↔
      (Json.arr items).IsWritable)
  | [] => by simp [Json.itemPieces]
  | v :: rest => by
    have hv := noHalf_pieces depth v
    have hrest := noHalf_itemPieces depth ("," ++ newLine depth) (by simp) rest
    rw [Json.itemPieces, List.forall_mem_append, hrest, writable_arr_cons]
    refine and_congr_left' ?_
    -- a scalar goes out together with what stands before it
    cases hscalar : v.scalar? with
    | none => simpa [hbefore] using hv
    | some t => simpa [hbefore] using noHalf_scalar hscalar

theorem noHalf_fieldPieces (depth : Nat) :
    (fields : List (Text × Json)) → ((∀ p ∈ Json.fieldPieces depth fields, p.NoHalf) ↔
      (Json.obj fields).IsWritable)
  | [] => by simp [Json.fieldPieces]
  | (k, v) :: rest => by
    have hv := noHalf_pieces depth v
    have hrest := noHalf_fieldPieces depth rest
    rw [Json.fieldPieces, List.forall_mem_cons, List.forall_mem_cons, List.forall_mem_append, hv,
      noHalf_quoted]
    cases rest with
    | nil => simp
    | cons f rest =>
      rw [if_neg (by simp), List.forall_mem_cons, hrest]
      simp

end

/-- Pieces go out to the last one exactly if all of them have a UTF-8 form. -/
theorem encodePieces_ok_iff (pieces : List Text) :
    (Disk.encodePieces pieces).2 = .ok () ↔ ∀ p ∈ pieces, p.NoHalf := by
  induction pieces with
  | nil => simp [Disk.encodePieces]
  | cons t rest ih =>
    simp only [Disk.encodePieces, Text.utf8]
    rw [List.forall_mem_cons, ← ih, ← Text.encodeError_eq_none_iff]
    cases t.encodeError? <;> simp

/-! ## Marks -/

theorem writable_of_field {fields : List (Text × Json)} (h : (Json.obj fields).IsWritable)
    {k : Text} {v : Json} (hfield : field? k fields = some v) : v.IsWritable := by
  induction fields with
  | nil => cases hfield
  | cons f rest ih =>
    obtain ⟨k', w⟩ := f
    obtain ⟨-, hw, hrest⟩ := (writable_obj_cons k' w rest).mp h
    unfold field? at hfield
    split at hfield
    · cases hfield
      exact hw
    · exact ih hrest hfield

theorem writable_setField {key : Text} (hkey : key.NoHalf) {v : Json} (hv : v.IsWritable)
    {fields : List (Text × Json)} (h : (Json.obj fields).IsWritable) :
    (Json.obj (setField key v fields)).IsWritable := by
  induction fields with
  | nil => simp [setField, hkey, hv]
  | cons f rest ih =>
    obtain ⟨k, w⟩ := f
    obtain ⟨hk, hw, hrest⟩ := (writable_obj_cons k w rest).mp h
    unfold setField
    split
    · simp [hk, hv, hrest]
    · simp [hk, hw, ih hrest]

/-- The files of the marks have a UTF-8 form. -/
def NoHalfMarks (marks : List (Option Text)) : Prop := ∀ m ∈ marks, ∀ file ∈ m, file.NoHalf

section Marks

variable {key : Text} (hkey : key.NoHalf)

include hkey

theorem writable_markedEntry {m : Option Text} (hm : ∀ file ∈ m, file.NoHalf)
    {entry : List (Text × Json)} (h : (Json.obj entry).IsWritable) :
    (Json.obj (markedEntry key entry m)).IsWritable := by
  cases m with
  | none => exact h
  | some file =>
    refine writable_setField hkey ?_ h
    simpa [Json.IsWritable, Json.texts] using hm file rfl

theorem writable_mark (s : Shelf) {vs : List Json} {marks : List (Option Text)}
    (hmarks : NoHalfMarks marks) (h : (Json.arr vs).IsWritable) :
    (Json.arr (s.mark key vs marks).1).IsWritable ∧ NoHalfMarks (s.mark key vs marks).2 := by
  fun_induction Shelf.mark s key vs marks with
  | case1 marks => exact ⟨h, hmarks⟩
  | case2 entry vs t m marks hscript marked rest left heq ih =>
    obtain ⟨hm, hmarks⟩ := List.forall_mem_cons.mp hmarks
    obtain ⟨hentry, hvs⟩ := (writable_arr_cons _ _).mp h
    obtain ⟨hrest, hleft⟩ := ih hmarks hvs
    rw [heq] at hrest hleft
    exact ⟨(writable_arr_cons _ _).mpr ⟨writable_markedEntry hkey hm hentry, hrest⟩, hleft⟩
  | case3 entry vs marks rest left heq hnone ih =>
    obtain ⟨hentry, hvs⟩ := (writable_arr_cons _ _).mp h
    obtain ⟨hrest, hleft⟩ := ih hmarks hvs
    rw [heq] at hrest hleft
    exact ⟨(writable_arr_cons _ _).mpr ⟨hentry, hrest⟩, hleft⟩
  | case4 v vs marks hnone rest left heq ih =>
    obtain ⟨hv, hvs⟩ := (writable_arr_cons _ _).mp h
    obtain ⟨hrest, hleft⟩ := ih hmarks hvs
    rw [heq] at hrest hleft
    exact ⟨(writable_arr_cons _ _).mpr ⟨hv, hrest⟩, hleft⟩

theorem writable_markIn (s : Shelf) (hshelf : s.key.NoHalf) {manifest : List (Text × Json)}
    {marks : List (Option Text)} (hmarks : NoHalfMarks marks)
    (h : (Json.obj manifest).IsWritable) :
    (Json.obj (s.markIn key manifest marks).1).IsWritable ∧
      NoHalfMarks (s.markIn key manifest marks).2 := by
  unfold Shelf.markIn
  split
  · rename_i vs hfield
    obtain ⟨hvs, hleft⟩ := writable_mark hkey s hmarks (writable_of_field h hfield)
    exact ⟨writable_setField hshelf hvs h, hleft⟩
  · exact ⟨h, hmarks⟩

/-- A writable manifest is writable with its marks. -/
theorem writable_markManifest {manifest : List (Text × Json)} {marks : List (Option Text)}
    (hmarks : NoHalfMarks marks) (h : (Json.obj manifest).IsWritable) :
    (Json.obj (markManifest key manifest marks)).IsWritable := by
  obtain ⟨hobjects, hleft⟩ := writable_markIn hkey objectShelf (by decide) hmarks h
  rw [markManifest_eq]
  exact (writable_markIn hkey functionShelf (by decide) hleft hobjects).1

end Marks

end BlockScript
