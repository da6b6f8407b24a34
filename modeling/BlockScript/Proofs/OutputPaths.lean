-- Where the units of a project are written. Every script and every error log
-- has a file of its own, right in the output directory, and the units are the
-- scripted entries of the manifest in their order.
import BlockScript.Project.Batch
import BlockScript.Proofs.Names
import Mathlib.Data.List.Nodup
import Mathlib.Data.List.Perm.Subperm
import Mathlib.Data.List.Forall2

namespace BlockScript

/-! ## File names -/

/-- A name of one file: it leads neither into another directory nor to one, and it can be handed
to a disk. -/
structure IsFileName (name : Text) : Prop where
  noSlash : .char '/' ∉ name
  noNull : .char '\x00' ∉ name
  noHalf : ∀ g ∈ name, g.isHalf = false
  notEmpty : name ≠ []
  notHere : name ≠ Text.ofString "."
  notAbove : name ≠ Text.ofString ".."

/-- A glyph of the part of a file name before its ending. -/
def Glyph.isBase (g : Glyph) : Bool := g.isStem || g = .char '\n'

theorem isHalf_of_isBase {g : Glyph} (h : g.isBase = true) : g.isHalf = false := by
  cases g with
  | char c => rfl
  | half n => simp [Glyph.isBase, Glyph.isStem, Glyph.isWord] at h

/-- An ending of file names. -/
structure IsEnding (ending : Text) : Prop where
  noSlash : .char '/' ∉ ending
  noNull : .char '\x00' ∉ ending
  noHalf : ∀ g ∈ ending, g.isHalf = false

/-- A base with an ending is a file name. The base starts with no dot. -/
theorem isFileName_append {base ending : Text} (hne : base ≠ [])
    (hbase : ∀ g ∈ base, g.isBase = true) (hending : IsEnding ending) :
    IsFileName (base ++ ending) := by
  have hmem : ∀ g : Glyph, g.isBase = false → g ∉ ending → g ∉ base ++ ending := by
    intro g hg hend hmem
    rcases List.mem_append.mp hmem with hmem | hmem
    · rw [hbase g hmem] at hg
      cases hg
    · exact hend hmem
  have hdot : ∀ more, base ++ ending ≠ .char '.' :: more := by
    intro more h
    cases base with
    | nil => exact hne rfl
    | cons g rest =>
      obtain ⟨rfl, -⟩ := List.cons.inj h
      exact absurd (hbase _ (List.mem_cons_self)) (by decide)
  exact {
    noSlash := hmem _ (by decide) hending.noSlash
    noNull := hmem _ (by decide) hending.noNull
    noHalf := by
      intro g hg
      rcases List.mem_append.mp hg with hg | hg
      · exact isHalf_of_isBase (hbase g hg)
      · exact hending.noHalf g hg
    notEmpty := by simp [hne]
    notHere := hdot _
    notAbove := hdot _ }

theorem fileStem_ne_nil {id stem : Text} (h : fileStem id = .ok stem) : stem ≠ [] := by
  unfold fileStem at h
  simp only at h
  split at h
  · rename_i hsafe
    cases h
    rintro rfl
    simp [Text.dropFinalNewline] at hsafe
  · obtain ⟨digest, -, h⟩ := ok_of_bind_ok h
    cases h
    intro h
    rw [List.append_assoc, List.append_eq_nil_iff] at h
    cases h.2

theorem mem_fileStem {id stem : Text} (h : fileStem id = .ok stem) :
    ∀ g ∈ stem, g.isBase = true := by
  unfold fileStem at h
  simp only at h
  split at h
  · rename_i hsafe
    cases h
    simp only [Bool.and_eq_true, List.all_eq_true] at hsafe
    intro g hg
    rcases mem_dropFinalNewline hg with hg | rfl
    · simp [Glyph.isBase, hsafe.2 g hg]
    · decide
  · intro g hg
    have hstem := Name.mem_digested (fun g hg => by simp [Glyph.isStem, hg]) h g hg
    simp [Glyph.isBase, hstem]

/-! ## Candidates -/

/-- What tells the candidates for one stem apart. -/
def numbering (i : Nat) : Text := if i = 0 then [] else "_" ++ Text.ofNat (i + 1)

theorem candidatePath_eq (dir stem : Text) (i : Nat) :
    candidatePath dir stem i = dir ++ "/" ++ (stem ++ numbering i) ++ ".js" := by
  simp [candidatePath, numbering]

theorem numbering_injective {i j : Nat} (h : numbering i = numbering j) : i = j := by
  unfold numbering at h
  split at h <;> split at h
  · omega
  · cases h
  · cases h
  · have hnat := Text.ofNat_injective (List.append_cancel_left h)
    omega

theorem mem_numbering (i : Nat) : ∀ g ∈ numbering i, g.isBase = true := by
  intro g hg
  unfold numbering at hg
  split at hg
  · cases hg
  · rcases List.mem_append.mp hg with hg | hg
    · rw [List.mem_singleton.mp hg]
      decide
    · obtain ⟨c, hc, rfl⟩ := List.mem_map.mp hg
      have hdigit := Nat.isDigit_of_mem_toDigits (by decide) (by decide) hc
      simp [Glyph.isBase, Glyph.isStem, Glyph.isWord, Char.isAlphanum, hdigit]

theorem candidatePath_injective {dir stem : Text} {i j : Nat}
    (h : candidatePath dir stem i = candidatePath dir stem j) : i = j := by
  rw [candidatePath_eq, candidatePath_eq] at h
  have h := List.append_cancel_right h
  exact numbering_injective (List.append_cancel_left (List.append_cancel_left h))

/-- The used paths are too few for all candidates, so the path that is taken is the first free
one. -/
theorem freePath_least (used : List Text) (dir stem : Text) :
    ∃ i ≤ used.length, freePath used dir stem = candidatePath dir stem i ∧
      candidatePath dir stem i ∉ used ∧ ∀ j < i, candidatePath dir stem j ∈ used := by
  unfold freePath
  rw [List.find?_map]
  cases hfind : (List.range (used.length + 1)).find?
      ((!used.contains ·) ∘ candidatePath dir stem) with
  | some i =>
    obtain ⟨hfree, hi, hbefore⟩ := List.find?_range_eq_some.mp hfind
    refine ⟨i, ?_, rfl, by simpa using hfree, fun j hj => by simpa using hbefore j hj⟩
    rw [List.mem_range] at hi
    omega
  | none =>
    -- every candidate is used, but there is one more of them than there are used paths
    have hall : ((List.range (used.length + 1)).map (candidatePath dir stem)) ⊆ used := by
      intro path hpath
      obtain ⟨i, hi, rfl⟩ := List.mem_map.mp hpath
      simpa using List.find?_eq_none.mp hfind i hi
    have hnodup : ((List.range (used.length + 1)).map (candidatePath dir stem)).Nodup :=
      List.nodup_range.map fun _ _ => candidatePath_injective
    have hlength := (hnodup.subperm hall).length_le
    rw [List.length_map, List.length_range] at hlength
    omega

/-! ## Units -/

/-- The script of the unit is the file with this base in the output directory. -/
structure WorkUnit.Filed (g : Settings) (u : WorkUnit) (base : Text) : Prop where
  path : u.path = g.outputDir ++ "/" ++ base ++ ".js"
  glyphs : ∀ c ∈ base, c.isBase = true
  notEmpty : base ≠ []

/-- What a unit takes over from an entry and its place in the list. -/
structure Shelf.Makes (s : Shelf) (e : List (Text × Json) × Nat) (u : WorkUnit) : Prop where
  script : field? s.scriptKey e.1 = some (.str u.script)
  id : u.id = s.entryId e.2 e.1
  name : u.name = ((field? "name" e.1).map Json.shown).getD u.id
  function : u.function = if s.holdsFunctions then some u.id else none

/-- Whether an entry has a text that is not blank for its script. -/
def Shelf.isScripted (s : Shelf) (entry : List (Text × Json)) : Bool :=
  match field? s.scriptKey entry with
  | some (.str t) => !t.isBlank
  | _ => false

/-- The scripted entries of a shelf in their order, each with its place among all entries. -/
def Shelf.scripted (s : Shelf) (manifest : List (Text × Json)) : List (List (Text × Json) × Nat) :=
  (s.entries manifest).zipIdx.filter fun e => s.isScripted e.1

theorem script_eq_none {s : Shelf} {entry : List (Text × Json)} :
    s.script? entry = none ↔ s.isScripted entry = false := by
  unfold Shelf.script? Shelf.isScripted textField?
  rcases field? s.scriptKey entry with _ | v
  · simp
  · cases v <;> simp [Json.text?, Option.filter]

theorem script_eq_some {s : Shelf} {entry : List (Text × Json)} {t : Text}
    (h : s.script? entry = some t) :
    field? s.scriptKey entry = some (.str t) ∧ s.isScripted entry = true := by
  have hscripted : s.isScripted entry = true := by
    by_contra hne
    rw [script_eq_none.mpr (by simpa using hne)] at h
    cases h
  refine ⟨?_, hscripted⟩
  obtain ⟨hfield, -⟩ := Option.filter_eq_some_iff.mp h
  obtain ⟨v, hv, ht⟩ := Option.bind_eq_some_iff.mp hfield
  cases v with
  | str t' =>
    cases ht
    exact hv
  | _ => cases ht

theorem makes_unitOf {s : Shelf} {g : Settings} {used : List Text} {index : Nat}
    {entry : List (Text × Json)} {script : Text} {u : WorkUnit}
    (hfield : field? s.scriptKey entry = some (.str script))
    (h : s.unitOf g used index entry script = .ok u) : s.Makes (entry, index) u := by
  obtain ⟨stem, -, h⟩ := ok_of_bind_ok h
  cases h
  exact ⟨hfield, rfl, rfl, rfl⟩

theorem filed_unitOf {s : Shelf} {g : Settings} {used : List Text} {index : Nat}
    {entry : List (Text × Json)} {script : Text} {u : WorkUnit}
    (hstart : ∀ c ∈ s.stemStart, c.isBase = true)
    (h : s.unitOf g used index entry script = .ok u) :
    u.path ∉ used ∧ ∃ base, u.Filed g base := by
  obtain ⟨stem, hstem, h⟩ := ok_of_bind_ok h
  cases h
  obtain ⟨i, -, hpath, hfree, -⟩ := freePath_least used g.outputDir (s.stemStart ++ stem)
  refine ⟨by rw [hpath]; exact hfree, s.stemStart ++ stem ++ numbering i, ?_, ?_, ?_⟩
  · rw [hpath, candidatePath_eq]
  · intro c hc
    simp only [List.mem_append] at hc
    rcases hc with (hc | hc) | hc
    · exact hstart c hc
    · exact mem_fileStem hstem c hc
    · exact mem_numbering i c hc
  · simp [fileStem_ne_nil hstem]

/-- An entry without a script is passed over; a scripted one has the next unit. -/
theorem units_cons {s : Shelf} {g : Settings} {used : List Text} {index : Nat}
    {entry : List (Text × Json)} {rest : List (List (Text × Json))} {units : List WorkUnit}
    (h : s.units g used index (entry :: rest) = .ok units) :
    (s.isScripted entry = false ∧ s.units g used (index + 1) rest = .ok units) ∨
    ∃ script u more, s.script? entry = some script ∧ s.unitOf g used index entry script = .ok u ∧
      s.units g (u.path :: used) (index + 1) rest = .ok more ∧ units = u :: more := by
  unfold Shelf.units at h
  cases hscript : s.script? entry with
  | none =>
    rw [hscript] at h
    exact .inl ⟨script_eq_none.mp hscript, h⟩
  | some script =>
    rw [hscript] at h
    obtain ⟨u, hu, h⟩ := ok_of_bind_ok h
    obtain ⟨more, hmore, h⟩ := ok_of_bind_ok h
    cases h
    exact .inr ⟨script, u, more, rfl, hu, hmore, rfl⟩

/-- The units of a list of entries are its scripted entries in order. -/
theorem makes_units {s : Shelf} {g : Settings} {entries : List (List (Text × Json))}
    {used : List Text} {index : Nat} {units : List WorkUnit}
    (h : s.units g used index entries = .ok units) :
    List.Forall₂ s.Makes ((entries.zipIdx index).filter fun e => s.isScripted e.1) units := by
  induction entries generalizing used index units with
  | nil =>
    cases h
    exact .nil
  | cons entry rest ih =>
    rw [List.zipIdx_cons, List.filter_cons]
    rcases units_cons h with ⟨hnot, h⟩ | ⟨script, u, more, hscript, hu, hmore, rfl⟩
    · simpa [hnot] using ih h
    · obtain ⟨hfield, hscripted⟩ := script_eq_some hscript
      simpa [hscripted] using ⟨makes_unitOf hfield hu, ih hmore⟩

/-- Each unit takes a path that neither a used one nor another unit has. -/
theorem filed_units {s : Shelf} {g : Settings} (hstart : ∀ c ∈ s.stemStart, c.isBase = true)
    {entries : List (List (Text × Json))} {used : List Text} {index : Nat} {units : List WorkUnit}
    (h : s.units g used index entries = .ok units) :
    (units.map WorkUnit.path).Nodup ∧ ∀ u ∈ units, u.path ∉ used ∧ ∃ base, u.Filed g base := by
  induction entries generalizing used index units with
  | nil =>
    cases h
    simp
  | cons entry rest ih =>
    rcases units_cons h with ⟨-, h⟩ | ⟨script, u, more, -, hu, hmore, rfl⟩
    · exact ih h
    · obtain ⟨hnodup, hmem⟩ := ih hmore
      refine ⟨?_, ?_⟩
      · rw [List.map_cons, List.nodup_cons]
        refine ⟨?_, hnodup⟩
        intro hpath
        obtain ⟨v, hv, heq⟩ := List.mem_map.mp hpath
        exact (hmem v hv).1 (by simp [heq])
      · intro v hv
        rcases List.mem_cons.mp hv with rfl | hv
        · exact filed_unitOf hstart hu
        · obtain ⟨hfree, hfiled⟩ := hmem v hv
          exact ⟨fun hused => hfree (List.mem_cons_of_mem _ hused), hfiled⟩

/-! ## Manifests -/

theorem collectUnits_cases {g : Settings} {manifest : List (Text × Json)} {units : List WorkUnit}
    (h : collectUnits g manifest = .ok units) :
    ∃ objects functions, units = objects ++ functions ∧
      objectShelf.units g [] 0 (objectShelf.entries manifest) = .ok objects ∧
      functionShelf.units g (objects.map WorkUnit.path).reverse 0 (functionShelf.entries manifest)
        = .ok functions := by
  obtain ⟨objects, hobjects, h⟩ := ok_of_bind_ok h
  obtain ⟨functions, hfunctions, h⟩ := ok_of_bind_ok h
  cases h
  exact ⟨objects, functions, rfl, hobjects, hfunctions⟩

theorem nodup_paths {g : Settings} {manifest : List (Text × Json)} {units : List WorkUnit}
    (h : collectUnits g manifest = .ok units) :
    (units.map WorkUnit.path).Nodup ∧ ∀ u ∈ units, ∃ base, u.Filed g base := by
  obtain ⟨objects, functions, rfl, hobjects, hfunctions⟩ := collectUnits_cases h
  obtain ⟨hnodup, hmem⟩ := filed_units (by decide) hobjects
  obtain ⟨hnodup', hmem'⟩ := filed_units (by decide) hfunctions
  refine ⟨?_, ?_⟩
  · rw [List.map_append, List.nodup_append]
    refine ⟨hnodup, hnodup', ?_⟩
    intro p hp q hq heq
    obtain ⟨v, hv, rfl⟩ := List.mem_map.mp hq
    exact (hmem' v hv).1 (by simpa [heq] using hp)
  · intro u hu
    rcases List.mem_append.mp hu with hu | hu
    · exact (hmem u hu).2
    · exact (hmem' u hu).2

/-! ## Error logs -/

/-- The file of a unit's error log, for an ending of error logs. -/
def WorkUnit.logPath (u : WorkUnit) (suffix : Text) : Text :=
  u.path.take (u.path.length - 3) ++ suffix

/-- An ending of error logs that no script has. -/
structure IsLogSuffix (suffix : Text) : Prop extends IsEnding suffix where
  notScript : ¬ Text.ofString ".js" <:+ suffix

/-- The usual ending of error logs. -/
theorem isLogSuffix_usual : IsLogSuffix ".error.log" where
  noSlash := by decide
  noNull := by decide
  noHalf := by decide
  notScript := by decide

theorem logFile_eq {g : Settings} {suffix : Text} (hsuffix : g.errorLogSuffix = .str suffix)
    (u : WorkUnit) : Batch.logFile g u = .ok (u.logPath suffix) := by
  simp [Batch.logFile, hsuffix, WorkUnit.logPath]

theorem logPath_eq {g : Settings} {u : WorkUnit} {base : Text} (h : u.Filed g base)
    (suffix : Text) : u.logPath suffix = g.outputDir ++ "/" ++ base ++ suffix := by
  have hlength : u.path.length - 3 = (g.outputDir ++ "/" ++ base).length := by
    rw [h.path, List.length_append]
    exact Nat.add_sub_cancel _ 3
  rw [WorkUnit.logPath, hlength, h.path, List.take_left]

theorem path_eq_of_logPath_eq {g : Settings} {u v : WorkUnit} {base base' suffix : Text}
    (hu : u.Filed g base) (hv : v.Filed g base') (h : u.logPath suffix = v.logPath suffix) :
    u.path = v.path := by
  rw [logPath_eq hu, logPath_eq hv] at h
  rw [hu.path, hv.path, List.append_cancel_right h]

/-- An error log with the name of a script would have the dot of the script's ending in its base. -/
theorem path_ne_logPath {g : Settings} {u v : WorkUnit} {base base' suffix : Text}
    (hsuffix : IsLogSuffix suffix) (hu : u.Filed g base) (hv : v.Filed g base') :
    u.path ≠ v.logPath suffix := by
  intro h
  rw [hu.path, logPath_eq hv, List.append_assoc, List.append_assoc _ base'] at h
  have h := List.append_cancel_left h
  rcases List.append_eq_append_iff.mp h with ⟨more, hbase', hsuffix'⟩ | ⟨more, -, hsuffix'⟩
  · cases more with
    | nil => exact hsuffix.notScript ⟨[], by simpa using hsuffix'⟩
    | cons c more =>
      have hdot : .char '.' = c := (List.cons.inj hsuffix').1
      exact absurd (hv.glyphs (.char '.') (by simp [hbase', ← hdot])) (by decide)
  · exact hsuffix.notScript ⟨more, hsuffix'.symm⟩

theorem nodup_files {g : Settings} {manifest : List (Text × Json)} {units : List WorkUnit}
    {suffix : Text} (hsuffix : IsLogSuffix suffix) (h : collectUnits g manifest = .ok units) :
    (units.map WorkUnit.path ++ units.map (WorkUnit.logPath · suffix)).Nodup := by
  obtain ⟨hnodup, hfiled⟩ := nodup_paths h
  rw [List.nodup_append]
  refine ⟨hnodup, ?_, ?_⟩
  · apply (List.Nodup.of_map _ hnodup).map_on
    intro u hu v hv heq
    obtain ⟨base, hbase⟩ := hfiled u hu
    obtain ⟨base', hbase'⟩ := hfiled v hv
    exact List.inj_on_of_nodup_map hnodup hu hv (path_eq_of_logPath_eq hbase hbase' heq)
  · intro p hp q hq heq
    obtain ⟨u, hu, rfl⟩ := List.mem_map.mp hp
    obtain ⟨v, hv, rfl⟩ := List.mem_map.mp hq
    obtain ⟨base, hbase⟩ := hfiled u hu
    obtain ⟨base', hbase'⟩ := hfiled v hv
    exact path_ne_logPath hsuffix hbase hbase' heq

theorem isEnding_script : IsEnding ".js" where
  noSlash := by decide
  noNull := by decide
  noHalf := by decide

/-- Scripts and error logs are files of their own in the output directory, and the units are the
scripted objects followed by the scripted functions. -/
theorem every_unit_has_its_own_files (g : Settings) (manifest : List (Text × Json))
    (units : List WorkUnit) (hsuffix : g.errorLogSuffix = .str ".error.log")
    (h : collectUnits g manifest = .ok units) :
    (units.map WorkUnit.path).Nodup ∧
    (∃ logs, units.mapM (Batch.logFile g) = .ok logs ∧
      (units.map WorkUnit.path ++ logs).Nodup ∧
      ∀ p ∈ units.map WorkUnit.path ++ logs,
        ∃ name, p = g.outputDir ++ "/" ++ name ∧ IsFileName name) ∧
    ∃ objects functions, units = objects ++ functions ∧
      List.Forall₂ objectShelf.Makes (objectShelf.scripted manifest) objects ∧
      List.Forall₂ functionShelf.Makes (functionShelf.scripted manifest) functions := by
  obtain ⟨hnodup, hfiled⟩ := nodup_paths h
  refine ⟨hnodup, ⟨units.map (WorkUnit.logPath · ".error.log"), ?_,
    nodup_files isLogSuffix_usual h, ?_⟩, ?_⟩
  · rw [funext (logFile_eq hsuffix)]
    exact List.mapM_pure
  · intro p hp
    rcases List.mem_append.mp hp with hp | hp
    · obtain ⟨u, hu, rfl⟩ := List.mem_map.mp hp
      obtain ⟨base, hbase⟩ := hfiled u hu
      exact ⟨base ++ ".js", by rw [hbase.path, List.append_assoc],
        isFileName_append hbase.notEmpty hbase.glyphs isEnding_script⟩
    · obtain ⟨u, hu, rfl⟩ := List.mem_map.mp hp
      obtain ⟨base, hbase⟩ := hfiled u hu
      exact ⟨base ++ ".error.log", by rw [logPath_eq hbase, List.append_assoc],
        isFileName_append hbase.notEmpty hbase.glyphs isLogSuffix_usual.toIsEnding⟩
  · obtain ⟨objects, functions, rfl, hobjects, hfunctions⟩ := collectUnits_cases h
    exact ⟨objects, functions, rfl, makes_units hobjects, makes_units hfunctions⟩

/-- A repeated id, an id that looks like a numbered one, and an object named like a function. -/
theorem repeated_ids_have_their_own_files :
    let object (id : Text) : Json := .obj [("id", .str id), ("script", .str "[]")]
    let manifest : List (Text × Json) :=
      [("objects", .arr [object "dup", object "dup", object "dup_2", object "func_x"]),
       ("functions", .arr [.obj [("id", .str "x"), ("content", .str "[]")]])]
    ∃ units, collectUnits {} manifest = .ok units ∧
      units.map WorkUnit.path = ["script/dup.js", "script/dup_2.js", "script/dup_2_2.js",
        "script/func_x.js", "script/func_x_2.js"] ∧
      ∃ logs, units.mapM (Batch.logFile {}) = .ok logs ∧
        (units.map WorkUnit.path ++ logs).Nodup := by
  intro object manifest
  refine ⟨_, rfl, rfl, ?_⟩
  obtain ⟨logs, hlogs, hnodup, -⟩ :=
    (every_unit_has_its_own_files {} manifest _ rfl rfl).2.1
  exact ⟨logs, hlogs, hnodup⟩

end BlockScript
