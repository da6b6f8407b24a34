-- Marking a manifest that has its marks. A mark changes nothing that a unit is
-- made from, so the marked manifest has the units of the old one, and marking it
-- with the same report leaves it as it is.
import BlockScript.Proofs.Annotation
import BlockScript.Proofs.Documents

namespace BlockScript

/-! ## Fields that are set again -/

theorem setField_same {key : Text} {v : Json} {fields : List (Text × Json)}
    (h : field? key fields = some v) : setField key v fields = fields := by
  induction fields with
  | nil => cases h
  | cons f rest ih =>
    obtain ⟨k, w⟩ := f
    rw [field?] at h
    rw [setField]
    by_cases hk : k = key
    · rw [if_pos hk] at h ⊢
      cases h
      rfl
    · rw [if_neg hk] at h ⊢
      rw [ih h]

theorem markedEntry_twice (key : Text) (entry : List (Text × Json)) (m : Option Text) :
    markedEntry key (markedEntry key entry m) m = markedEntry key entry m := by
  cases m with
  | none => rfl
  | some file =>
    apply setField_same
    rw [markedEntry, field_setField, if_pos rfl]

theorem field_markedEntry {key k : Text} (h : key ≠ k) (entry : List (Text × Json))
    (m : Option Text) : field? k (markedEntry key entry m) = field? k entry := by
  cases m with
  | none => rfl
  | some file => rw [markedEntry, field_setField, if_neg h]

/-- A value that was entered is what setting its field gives. -/
theorem eq_setField_of_enters {key : Text} {v : Json} {fields fields' : List (Text × Json)}
    (h : Enters key v fields fields') : fields' = setField key v fields := by
  cases h with
  | added hfresh => rw [setField_of_fresh hfresh]
  | replaced before after old hbefore =>
    induction before with
    | nil => simp [setField]
    | cons f before ih =>
      obtain ⟨k, w⟩ := f
      rw [List.map_cons, List.mem_cons, not_or] at hbefore
      rw [List.cons_append, List.cons_append, setField, if_neg (Ne.symm hbefore.1), ← ih hbefore.2]

/-! ## Units -/

/-- A key that no unit is made from. -/
structure Shelf.Free (s : Shelf) (key : Text) : Prop where
  script : key ≠ s.scriptKey
  id : key ≠ "id"
  name : key ≠ "name"

/-- Two entries with the same fields except for one. -/
def SameBut (key : Text) (entry entry' : List (Text × Json)) : Prop :=
  ∀ k, key ≠ k → field? k entry' = field? k entry

namespace Shelf

variable {s : Shelf} {key : Text}

theorem isScripted_of_sameBut (hfree : s.Free key) {entry entry' : List (Text × Json)}
    (h : SameBut key entry entry') : s.isScripted entry' = s.isScripted entry := by
  rw [isScripted, isScripted, h _ hfree.script]

/-- Entries that differ in no field of a unit have the same units. -/
theorem units_of_sameBut (hfree : s.Free key) (g : Settings)
    {entries entries' : List (List (Text × Json))}
    (h : List.Forall₂ (SameBut key) entries entries') (used : List Text) (index : Nat) :
    s.units g used index entries' = s.units g used index entries := by
  induction h generalizing used index with
  | nil => rfl
  | @cons entry entry' rest rest' hentry _ ih =>
    have hscript : s.script? entry' = s.script? entry := by
      rw [script?, script?, textField?, textField?, hentry _ hfree.script]
    have hunit : ∀ script, s.unitOf g used index entry' script
        = s.unitOf g used index entry script := by
      intro script
      rw [unitOf, unitOf, entryId, entryId, hentry _ hfree.id, hentry _ hfree.name]
    simp only [Shelf.units, hscript, hunit, ih]

theorem sameBut_mark (s : Shelf) (key : Text) (vs : List Json) (marks : List (Option Text)) :
    List.Forall₂ (SameBut key) (objectsIn vs) (objectsIn (s.mark key vs marks).1) := by
  have hmarks := marks_mark s key vs marks
  generalize (s.mark key vs marks).1 = vs' at hmarks
  induction hmarks with
  | nil => exact .nil
  | @cons v v' rest rest' hv _ ih =>
    rcases hv with rfl | ⟨entry, entry', file, rfl, rfl, -, henters⟩
    · cases v' with
      | obj entry => exact .cons (fun _ _ => rfl) ih
      | _ => exact ih
    · refine .cons ?_ ih
      intro k hk
      rw [eq_setField_of_enters henters, field_setField, if_neg hk]

/-- Units do not depend on the marks of a shelf. -/
theorem units_of_marked (hfree : s.Free key) (g : Settings)
    {manifest manifest' : List (Text × Json)} {marks : List (Option Text)}
    (h : s.items manifest' = (s.mark key (s.items manifest) marks).1)
    (used : List Text) :
    s.units g used 0 (s.entries manifest') = s.units g used 0 (s.entries manifest) := by
  apply units_of_sameBut hfree
  have hsame := s.sameBut_mark key (s.items manifest) marks
  rw [← h] at hsame
  exact hsame

/-! ## Marks that are there -/

/-- Without marks everything stays as it is. -/
theorem mark_nil (s : Shelf) (key : Text) (vs : List Json) : s.mark key vs [] = (vs, []) := by
  induction vs with
  | nil => rfl
  | cons v rest ih =>
    cases v with
    | obj entry =>
      rw [mark, ih]
      intro _ _ _ _ hmarks
      cases hmarks
    | _ => simp only [mark, ih]

/-- Marks that are set again change nothing. -/
theorem mark_mark (hfree : s.Free key) (vs : List Json) (marks : List (Option Text)) :
    s.mark key (s.mark key vs marks).1 marks = s.mark key vs marks := by
  induction vs generalizing marks with
  | nil => rfl
  | cons v rest ih =>
    cases v with
    | obj entry =>
      cases hscripted : s.isScripted entry with
      | false =>
        rw [mark_unscripted hscripted, mark_unscripted hscripted, ih]
      | true =>
        cases marks with
        | nil => rw [mark_nil, mark_nil]
        | cons m marks =>
          have hmarked : s.isScripted (markedEntry key entry m) = true := by
            rw [← hscripted]
            exact isScripted_of_sameBut hfree fun k hk => field_markedEntry hk entry m
          rw [mark_scripted hscripted, mark_scripted hmarked, ih, markedEntry_twice]
    | _ => simp only [mark, ih]

/-- A shelf whose list has its marks stays as it is. -/
theorem markIn_of_marked {manifest : List (Text × Json)} {marks left : List (Option Text)}
    (h : s.mark key (s.items manifest) marks = (s.items manifest, left)) :
    s.markIn key manifest marks = (manifest, left) := by
  unfold markIn
  unfold items at h
  cases hfield : field? s.key manifest with
  | none =>
    rw [hfield] at h
    rw [← (Prod.mk.inj h).2]
  | some v =>
    rw [hfield] at h
    cases v with
    | arr vs =>
      simp only [h]
      rw [setField_same hfield]
    | _ => rw [← (Prod.mk.inj h).2]

end Shelf

/-! ## Manifests -/

section Manifest

variable {key : Text} (hobjects : objectShelf.Free key) (hfunctions : functionShelf.Free key)
  (manifest : List (Text × Json)) (marks : List (Option Text))

/-- What stands on the shelves of a marked manifest. -/
theorem items_markManifest (key : Text) (manifest : List (Text × Json))
    (marks : List (Option Text)) :
    objectShelf.items (markManifest key manifest marks)
      = (objectShelf.mark key (objectShelf.items manifest) marks).1 ∧
    functionShelf.items (markManifest key manifest marks)
      = (functionShelf.mark key (functionShelf.items manifest)
        (objectShelf.mark key (objectShelf.items manifest) marks).2).1 := by
  obtain ⟨hitems, hleft⟩ := objectShelf.items_markIn key manifest marks
  rw [markManifest_eq, hleft]
  constructor
  · rw [functionShelf.items_markIn_other objectShelf (by decide), hitems]
  · rw [(functionShelf.items_markIn key _ _).1,
      objectShelf.items_markIn_other functionShelf (by decide)]

include hobjects hfunctions

theorem collectUnits_markManifest (g : Settings) :
    collectUnits g (markManifest key manifest marks) = collectUnits g manifest := by
  obtain ⟨hitems, hitems'⟩ := items_markManifest key manifest marks
  simp only [collectUnits, Shelf.units_of_marked hobjects g hitems,
    Shelf.units_of_marked hfunctions g hitems']

theorem markManifest_twice :
    markManifest key (markManifest key manifest marks) marks = markManifest key manifest marks := by
  obtain ⟨hitems, hitems'⟩ := items_markManifest key manifest marks
  generalize markManifest key manifest marks = marked at hitems hitems' ⊢
  have hobject : objectShelf.markIn key marked marks
      = (marked, (objectShelf.mark key (objectShelf.items manifest) marks).2) := by
    apply Shelf.markIn_of_marked
    rw [hitems, Shelf.mark_mark hobjects]
  have hfunction : functionShelf.markIn key marked
      (objectShelf.mark key (objectShelf.items manifest) marks).2
        = (marked, (functionShelf.mark key (functionShelf.items manifest)
          (objectShelf.mark key (objectShelf.items manifest) marks).2).2) := by
    apply Shelf.markIn_of_marked
    rw [hitems', Shelf.mark_mark hfunctions]
  rw [markManifest_eq, hobject, hfunction]

end Manifest

/-! ## Annotating again -/

section Annotate

variable {g : Settings} {key : Text} (hkey : g.scriptField = .str key)
  {manifest fields : List (Text × Json)} {units : List WorkUnit} {r : Report}
  (h : annotate g manifest units r = .ok fields)

include hkey h

theorem collectUnits_annotate (hobjects : objectShelf.Free key)
    (hfunctions : functionShelf.Free key) : collectUnits g fields = collectUnits g manifest := by
  rcases annotate_cases hkey h with rfl | ⟨rfl, -⟩
  · rfl
  · exact collectUnits_markManifest hobjects hfunctions manifest _ g

/-- A manifest that is annotated stays as it is when it is annotated again. -/
theorem annotate_twice (hobjects : objectShelf.Free key) (hfunctions : functionShelf.Free key) :
    annotate g fields units r = .ok fields := by
  rcases annotate_cases hkey h with rfl | ⟨rfl, hsome⟩
  · exact h
  · unfold annotate
    simp only
    rw [if_neg hsome, hkey]
    change Except.ok (markManifest key _ _) = _
    rw [markManifest_twice hobjects hfunctions]

end Annotate

/-! ## Canonical manifests -/

theorem canonical_of_field {fields : List (Text × Json)} (h : (Json.obj fields).IsCanonical)
    {k : Text} {v : Json} (hfield : field? k fields = some v) : v.IsCanonical := by
  have hfields := h.2
  clear h
  induction fields with
  | nil => cases hfield
  | cons f rest ih =>
    obtain ⟨k', w⟩ := f
    rw [field?] at hfield
    split at hfield
    · cases hfield
      exact hfields.1
    · exact ih hfield hfields.2

theorem canonical_mark (s : Shelf) (key : Text) {vs : List Json} (marks : List (Option Text))
    (h : Json.AllCanonical vs) : Json.AllCanonical (s.mark key vs marks).1 := by
  have hmarks := s.marks_mark key vs marks
  generalize (s.mark key vs marks).1 = vs' at hmarks
  induction hmarks with
  | nil => trivial
  | @cons v v' rest rest' hv _ ih =>
    refine ⟨?_, ih h.2⟩
    rcases hv with rfl | ⟨entry, entry', file, rfl, rfl, -, henters⟩
    · exact h.1
    · rw [eq_setField_of_enters henters]
      exact canonical_setField key (v := .str file) trivial h.1

theorem canonical_markIn (s : Shelf) (key : Text) {manifest : List (Text × Json)}
    (marks : List (Option Text)) (h : (Json.obj manifest).IsCanonical) :
    (Json.obj (s.markIn key manifest marks).1).IsCanonical := by
  unfold Shelf.markIn
  split
  · rename_i vs hfield
    exact canonical_setField s.key (v := .arr _) (canonical_mark s key marks
      (canonical_of_field h hfield)) h
  · exact h

/-- Marks keep a manifest canonical. -/
theorem canonical_annotate {g : Settings} {key : Text} (hkey : g.scriptField = .str key)
    {manifest fields : List (Text × Json)} {units : List WorkUnit} {r : Report}
    (hannotate : annotate g manifest units r = .ok fields) (h : (Json.obj manifest).IsCanonical) :
    (Json.obj fields).IsCanonical := by
  rcases annotate_cases hkey hannotate with rfl | ⟨rfl, -⟩
  · exact h
  · rw [markManifest_eq]
    exact canonical_markIn functionShelf key _ (canonical_markIn objectShelf key _ h)

end BlockScript
