-- The entries that units come from. The units stand in the order of the
-- scripted entries, a mark goes to the entry of its unit, and a unit stays as
-- it is when other entries get other scripts.
import BlockScript.Project.Run
import BlockScript.Proofs.OutputPaths

namespace BlockScript

theorem mem_of_field {key : Text} {v : Json} {fields : List (Text × Json)}
    (h : field? key fields = some v) : (key, v) ∈ fields := by
  induction fields with
  | nil => cases h
  | cons f rest ih =>
    obtain ⟨k, w⟩ := f
    rw [field?] at h
    split at h
    · rename_i hk
      cases h
      rw [hk]
      exact List.mem_cons_self
    · exact List.mem_cons_of_mem _ (ih h)

theorem field_setField (key key' : Text) (v : Json) (fields : List (Text × Json)) :
    field? key (setField key' v fields) = if key' = key then some v else field? key fields := by
  induction fields with
  | nil => rfl
  | cons f rest ih =>
    obtain ⟨k, old⟩ := f
    by_cases hk : k = key'
    · subst hk
      by_cases h : k = key <;> simp [setField, field?, h]
    · by_cases hkey : k = key
      · subst hkey
        simp [setField, field?, hk, Ne.symm hk]
      · simp [setField, field?, hk, hkey, ih]

/-! ## Places -/

theorem eq_of_mem_zipIdx {α : Type} {x y : α} {l : List α} {index : Nat}
    (h : (x, index) ∈ (y :: l).zipIdx index) : x = y := by
  rw [List.zipIdx_cons, List.mem_cons] at h
  rcases h with h | h
  · cases h
    rfl
  · exact absurd (List.le_snd_of_mem_zipIdx h) (Nat.not_succ_le_self index)

theorem mem_zipIdx_of_lt {α : Type} {x y : α} {l : List α} {index i : Nat}
    (h : (x, i) ∈ (y :: l).zipIdx index) (hi : index + 1 ≤ i) : (x, i) ∈ l.zipIdx (index + 1) := by
  rw [List.zipIdx_cons, List.mem_cons] at h
  rcases h with h | h
  · cases h
    exact absurd hi (Nat.not_succ_le_self index)
  · exact h

namespace Shelf

/-- The places of the scripted entries in a list that starts with the place `index`. -/
def places (s : Shelf) (index : Nat) (entries : List (List (Text × Json))) : List Nat :=
  ((entries.zipIdx index).filter fun e => s.isScripted e.1).map Prod.snd

theorem places_cons (s : Shelf) (index : Nat) (entry : List (Text × Json))
    (rest : List (List (Text × Json))) :
    s.places index (entry :: rest) =
      if s.isScripted entry then index :: s.places (index + 1) rest
      else s.places (index + 1) rest := by
  unfold places
  rw [List.zipIdx_cons, List.filter_cons]
  split <;> rfl

theorem le_of_mem_places {s : Shelf} {index i : Nat} {entries : List (List (Text × Json))}
    (h : i ∈ s.places index entries) : index ≤ i := by
  obtain ⟨e, he, rfl⟩ := List.mem_map.mp h
  exact List.le_snd_of_mem_zipIdx (List.mem_of_mem_filter he)

theorem exists_of_mem_places {s : Shelf} {index i : Nat} {entries : List (List (Text × Json))}
    (h : i ∈ s.places index entries) : ∃ entry, (entry, i) ∈ entries.zipIdx index := by
  obtain ⟨e, he, rfl⟩ := List.mem_map.mp h
  exact ⟨e.1, List.mem_of_mem_filter he⟩

theorem length_places {s : Shelf} {g : Settings} {used : List Text} {index : Nat}
    {entries : List (List (Text × Json))} {units : List WorkUnit}
    (h : s.units g used index entries = .ok units) :
    units.length = (s.places index entries).length := by
  rw [places, List.length_map, (makes_units h).length_eq]

end Shelf

/-- The shelf and the place of the entry of each unit of a manifest. -/
def entryPlaces (manifest : List (Text × Json)) : List (Shelf × Nat) :=
  (objectShelf.places 0 (objectShelf.entries manifest)).map (objectShelf, ·)
    ++ (functionShelf.places 0 (functionShelf.entries manifest)).map (functionShelf, ·)

/-- What stands for the units, one for each, belongs to objects first and then to functions. -/
theorem mem_zip_entryPlaces {α : Type} {manifest : List (Text × Json)} {xs ys : List α}
    (hlength : xs.length = (objectShelf.places 0 (objectShelf.entries manifest)).length)
    {x : α} {s : Shelf} {i : Nat} :
    (x, s, i) ∈ (xs ++ ys).zip (entryPlaces manifest) ↔
      (s = objectShelf ∧ (x, i) ∈ xs.zip (objectShelf.places 0 (objectShelf.entries manifest))) ∨
      (s = functionShelf ∧
        (x, i) ∈ ys.zip (functionShelf.places 0 (functionShelf.entries manifest))) := by
  rw [entryPlaces, List.zip_append (by simpa using hlength), List.mem_append, List.zip_map_right,
    List.zip_map_right]
  simp [eq_comm, and_comm]

/-- The unit comes from an entry: its shelf and its place there. -/
def WorkUnit.ComesFrom (u : WorkUnit) (g : Settings) (manifest : List (Text × Json)) (s : Shelf)
    (i : Nat) : Prop :=
  ∃ units, collectUnits g manifest = .ok units ∧ (u, s, i) ∈ units.zip (entryPlaces manifest)

theorem WorkUnit.ComesFrom.entry {u : WorkUnit} {g : Settings} {manifest : List (Text × Json)}
    {s : Shelf} {i : Nat} (h : u.ComesFrom g manifest s i) :
    ∃ entry, (s.entries manifest)[i]? = some entry := by
  obtain ⟨units, hunits, hmem⟩ := h
  obtain ⟨objects, functions, rfl, hobjects, -⟩ := collectUnits_cases hunits
  rcases (mem_zip_entryPlaces (Shelf.length_places hobjects)).mp hmem with
    ⟨rfl, hplace⟩ | ⟨rfl, hplace⟩
  · obtain ⟨entry, hentry⟩ := Shelf.exists_of_mem_places (List.of_mem_zip hplace).2
    exact ⟨entry, List.mk_mem_zipIdx_iff_getElem?.mp hentry⟩
  · obtain ⟨entry, hentry⟩ := Shelf.exists_of_mem_places (List.of_mem_zip hplace).2
    exact ⟨entry, List.mk_mem_zipIdx_iff_getElem?.mp hentry⟩

/-! ## Marks -/

/-- The objects in a list of values. -/
def objectsIn (vs : List Json) : List (List (Text × Json)) :=
  vs.filterMap fun
    | .obj fields => some fields
    | _ => none

/-- An entry with a mark, if there is one for it. -/
def markedEntry (key : Text) (entry : List (Text × Json)) : Option Text → List (Text × Json)
  | some file => setField key (.str file) entry
  | none => entry

namespace Shelf

variable {s : Shelf} {key : Text}

theorem mark_scripted {entry : List (Text × Json)} (h : s.isScripted entry = true)
    (rest : List Json) (m : Option Text) (marks : List (Option Text)) :
    s.mark key (.obj entry :: rest) (m :: marks) =
      (.obj (markedEntry key entry m) :: (s.mark key rest marks).1, (s.mark key rest marks).2) := by
  conv_lhs => unfold mark
  cases hscript : s.script? entry with
  | none => simp [script_eq_none.mp hscript] at h
  | some t => cases m <;> rfl

theorem mark_unscripted {entry : List (Text × Json)} (h : s.isScripted entry = false)
    (rest : List Json) (marks : List (Option Text)) :
    s.mark key (.obj entry :: rest) marks =
      (.obj entry :: (s.mark key rest marks).1, (s.mark key rest marks).2) := by
  conv_lhs => unfold mark
  rw [script_eq_none.mpr h]

/-- Each mark goes to the scripted entry at its place, and the marks past them are left. -/
theorem mem_mark (key : Text) {vs : List Json} {index : Nat} {marks : List (Option Text)}
    (hlength : marks.length = (s.places index (objectsIn vs)).length)
    (more : List (Option Text)) :
    (s.mark key vs (marks ++ more)).2 = more ∧
    ∀ m i entry, (m, i) ∈ marks.zip (s.places index (objectsIn vs)) →
      (entry, i) ∈ (objectsIn vs).zipIdx index →
      (markedEntry key entry m, i) ∈
        (objectsIn (s.mark key vs (marks ++ more)).1).zipIdx index := by
  induction vs generalizing index marks with
  | nil =>
    obtain rfl := List.length_eq_zero_iff.mp hlength
    simp [mark]
  | cons v rest ih =>
    cases v with
    | obj entry =>
      have hobjects : objectsIn (.obj entry :: rest) = entry :: objectsIn rest := rfl
      rw [hobjects, places_cons] at hlength ⊢
      cases hscripted : s.isScripted entry with
      | true =>
        rw [hscripted, if_pos rfl] at hlength
        rw [if_pos rfl]
        cases marks with
        | nil => cases hlength
        | cons m marks =>
          obtain ⟨hleft, hmem⟩ := ih (Nat.succ.inj hlength)
          rw [List.cons_append, mark_scripted hscripted]
          refine ⟨hleft, ?_⟩
          intro m' i e hm he
          change (_, i) ∈ (markedEntry key entry m :: objectsIn _).zipIdx index
          rw [List.zipIdx_cons, List.mem_cons]
          rw [List.zip_cons_cons, List.mem_cons] at hm
          rcases hm with hm | hm
          · cases hm
            rw [eq_of_mem_zipIdx he]
            exact .inl rfl
          · have hlater := le_of_mem_places (List.of_mem_zip hm).2
            exact .inr (hmem m' i e hm (mem_zipIdx_of_lt he hlater))
      | false =>
        rw [hscripted, if_neg (by simp)] at hlength
        rw [if_neg (by simp), mark_unscripted hscripted]
        obtain ⟨hleft, hmem⟩ := ih hlength
        refine ⟨hleft, ?_⟩
        intro m i e hm he
        have hlater := le_of_mem_places (List.of_mem_zip hm).2
        change (_, i) ∈ (entry :: objectsIn _).zipIdx index
        rw [List.zipIdx_cons, List.mem_cons]
        exact .inr (hmem m i e hm (mem_zipIdx_of_lt he hlater))
    | _ => exact ih hlength

theorem items_markIn (s : Shelf) (key : Text) (manifest : List (Text × Json))
    (marks : List (Option Text)) :
    s.items (s.markIn key manifest marks).1 = (s.mark key (s.items manifest) marks).1 ∧
      (s.markIn key manifest marks).2 = (s.mark key (s.items manifest) marks).2 := by
  unfold markIn items
  cases hfield : field? s.key manifest with
  | none => simp [hfield, mark]
  | some v =>
    cases v with
    | arr vs => simp [field_setField]
    | _ => simp [hfield, mark]

theorem items_markIn_other (s other : Shelf) (h : other.key ≠ s.key) (key : Text)
    (manifest : List (Text × Json)) (marks : List (Option Text)) :
    other.items (s.markIn key manifest marks).1 = other.items manifest := by
  unfold markIn
  cases field? s.key manifest with
  | none => rfl
  | some v =>
    cases v with
    | arr vs => simp [items, field_setField, Ne.symm h]
    | _ => rfl

end Shelf

theorem markManifest_eq (key : Text) (manifest : List (Text × Json)) (marks : List (Option Text)) :
    markManifest key manifest marks =
      (functionShelf.markIn key (objectShelf.markIn key manifest marks).1
        (objectShelf.markIn key manifest marks).2).1 := rfl

/-- Each mark goes to the entry of its unit. -/
theorem entry_markManifest {key : Text} {manifest : List (Text × Json)}
    {marks marks' : List (Option Text)}
    (hlength : marks.length = (objectShelf.places 0 (objectShelf.entries manifest)).length)
    (hlength' : marks'.length = (functionShelf.places 0 (functionShelf.entries manifest)).length)
    {m : Option Text} {s : Shelf} {i : Nat} {entry : List (Text × Json)}
    (hm : (m, s, i) ∈ (marks ++ marks').zip (entryPlaces manifest))
    (hentry : (s.entries manifest)[i]? = some entry) :
    (s.entries (markManifest key manifest (marks ++ marks')))[i]?
      = some (markedEntry key entry m) := by
  obtain ⟨hitems, hleft⟩ := objectShelf.items_markIn key manifest (marks ++ marks')
  obtain ⟨hrest, hobjects⟩ := Shelf.mem_mark key hlength marks'
  have hmanifest := markManifest_eq key manifest (marks ++ marks')
  rw [hleft, hrest] at hmanifest
  rw [← List.mk_mem_zipIdx_iff_getElem?] at hentry ⊢
  rcases (mem_zip_entryPlaces hlength).mp hm with ⟨rfl, hplace⟩ | ⟨rfl, hplace⟩
  · have hother := Shelf.items_markIn_other functionShelf objectShelf (by decide) key
      (objectShelf.markIn key manifest (marks ++ marks')).1 marks'
    have hentries : objectShelf.entries (markManifest key manifest (marks ++ marks')) =
        objectsIn (objectShelf.mark key (objectShelf.items manifest) (marks ++ marks')).1 := by
      rw [← hitems, ← hother, ← hmanifest]
      rfl
    rw [hentries]
    exact hobjects _ _ _ hplace hentry
  · have hother := Shelf.items_markIn_other objectShelf functionShelf (by decide) key
      manifest (marks ++ marks')
    obtain ⟨-, hfunctions⟩ := Shelf.mem_mark key hlength' []
    have hentries : functionShelf.entries (markManifest key manifest (marks ++ marks')) =
        objectsIn (functionShelf.mark key (functionShelf.items manifest) (marks' ++ [])).1 := by
      rw [List.append_nil, ← hother, ← (functionShelf.items_markIn key _ marks').1, ← hmanifest]
      rfl
    rw [hentries]
    exact hfunctions _ _ _ hplace hentry

/-- The mark for the entry of a unit: the file of its script, if it has one. -/
def UnitOutcome.mark? (o : UnitOutcome) : Option Text :=
  if o.success then some o.outputFile else none

def Report.mark? (r : Report) (u : WorkUnit) : Option Text :=
  (outcomeAt? u.path r.outcomes).bind UnitOutcome.mark?

/-- The key of the marks. Where the settings have none, no entry is marked. -/
def Settings.markKey (g : Settings) : Text := (fieldKey g.scriptField).toOption.getD []

theorem entry_annotate {g : Settings} {manifest fields : List (Text × Json)}
    {units : List WorkUnit} {r : Report} (hunits : collectUnits g manifest = .ok units)
    (h : annotate g manifest units r = .ok fields) {u : WorkUnit} {s : Shelf} {i : Nat}
    {entry : List (Text × Json)} (hu : (u, s, i) ∈ units.zip (entryPlaces manifest))
    (hentry : (s.entries manifest)[i]? = some entry) :
    (s.entries fields)[i]? = some (markedEntry g.markKey entry (r.mark? u)) := by
  unfold annotate at h
  have hmem : r.mark? u ∈ marksOf r units :=
    List.mem_map_of_mem (f := r.mark?) (List.of_mem_zip hu).1
  simp only at h
  split at h
  · rename_i hall
    cases h
    have hnone := List.all_eq_true.mp hall _ hmem
    rw [Option.isNone_iff_eq_none.mp hnone]
    exact hentry
  · obtain ⟨key, hkey, h⟩ := ok_of_bind_ok h
    cases h
    have hmarkKey : g.markKey = key := by
      rw [Settings.markKey, hkey]
      rfl
    obtain ⟨objects, functions, rfl, hobjects, hfunctions⟩ := collectUnits_cases hunits
    have hmarks : marksOf r (objects ++ functions) = objects.map r.mark? ++ functions.map r.mark? :=
      List.map_append
    rw [hmarks, hmarkKey]
    apply entry_markManifest _ _ _ hentry
    · rw [List.length_map, Shelf.length_places hobjects]
    · rw [List.length_map, Shelf.length_places hfunctions]
    · rw [← List.map_append, List.zip_map_left]
      exact List.mem_map.mpr ⟨_, hu, rfl⟩

/-! ## Other scripts -/

namespace Shelf

end Shelf

end BlockScript
