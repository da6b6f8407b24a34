-- The manifest on disk during a run. The directories and files of a run go to
-- places of their own, so the manifest stays as it is until it is saved. Saving
-- damages it if the manifest does not fit on the disk, or if a text in it has no
-- UTF-8 form.
import BlockScript.Proofs.Isolation
import BlockScript.Proofs.Places

namespace BlockScript

/-! ## Batches -/

theorem mem_setOutcome {path : Text} {o : UnitOutcome} {outcomes : List (Text × UnitOutcome)}
    {x : Text × UnitOutcome} (h : x ∈ setOutcome path o outcomes) : x.2 = o ∨ x ∈ outcomes := by
  induction outcomes with
  | nil =>
    rw [List.mem_singleton.mp h]
    exact .inl rfl
  | cons y rest ih =>
    obtain ⟨p, old⟩ := y
    unfold setOutcome at h
    split at h
    · rcases List.mem_cons.mp h with rfl | h
      · exact .inl rfl
      · exact .inr (List.mem_cons_of_mem _ h)
    · rcases List.mem_cons.mp h with rfl | h
      · exact .inr List.mem_cons_self
      · exact (ih h).imp_right (List.mem_cons_of_mem _)

theorem mem_of_outcomeAt {path : Text} {o : UnitOutcome} {outcomes : List (Text × UnitOutcome)}
    (h : outcomeAt? path outcomes = some o) : ∃ x ∈ outcomes, x.2 = o := by
  induction outcomes with
  | nil => cases h
  | cons y rest ih =>
    obtain ⟨p, old⟩ := y
    unfold outcomeAt? at h
    split at h
    · cases h
      exact ⟨_, List.mem_cons_self, rfl⟩
    · obtain ⟨x, hx, heq⟩ := ih h
      exact ⟨x, List.mem_cons_of_mem _ hx, heq⟩

/-- The script of a unit, and its error log if that has a name. -/
def WorkUnit.files (g : Settings) (u : WorkUnit) : List Text :=
  u.path :: (Batch.logFile g u).toOption.toList

/-- A run under way and what it started from: the settings, the directory of the project, the disk
with a place `p` that stays as it is, and the units. -/
structure Batch.Spares (g : Settings) (home : Text) (d : Disk) (p : Place) (units : List WorkUnit)
    (b : Batch) : Prop where
  settings : b.settings = g
  home : b.home = home
  keeps : d.Keeps b.disk p
  pending : ∀ f ∈ b.pending, f.unit ∈ units
  outputs : ∀ x ∈ b.report.outcomes, x.2.success = true → ∃ u ∈ units, x.2.outputFile = u.path

namespace Batch

section Steps

variable {g : Settings} {home : Text} {d : Disk} {p : Place} {units : List WorkUnit}
  (hapart : ∀ u ∈ units, ∀ file ∈ u.files g, d.target (Path.joined home file) ≠ p)
  {b : Batch} (hb : b.Spares g home d p units)

include hb

theorem Spares.record (u : WorkUnit) (file : Text) (message : Option Text)
    (hfile : message = none → ∃ u ∈ units, file = u.path) :
    (b.record u file message).Spares g home d p units := by
  refine ⟨hb.settings, hb.home, hb.keeps, hb.pending, ?_⟩
  intro x hx hsuccess
  rcases mem_setOutcome hx with heq | hx
  · rw [heq] at hsuccess ⊢
    exact hfile (Option.isNone_iff_eq_none.mp hsuccess)
  · exact hb.outputs x hx hsuccess

theorem Spares.write {t : Text} (hne : d.target t ≠ p) (text : Text) :
    ({ b with disk := (b.disk.writeText t text).1 } : Batch).Spares g home d p units := by
  rw [← hb.keeps.target] at hne
  exact ⟨hb.settings, hb.home, hb.keeps.trans (Disk.keeps_writeText hne text), hb.pending,
    hb.outputs⟩

theorem Spares.stopped (stop : Option Stop) :
    ({ b with stop } : Batch).Spares g home d p units :=
  ⟨hb.settings, hb.home, hb.keeps, hb.pending, hb.outputs⟩

include hapart

theorem Spares.target_ne {u : WorkUnit} (hu : u ∈ units) {file : Text} (hfile : file ∈ u.files g) :
    d.target (Path.joined b.home file) ≠ p := by
  rw [hb.home]
  exact hapart u hu file hfile

theorem Spares.settleFailure {u : WorkUnit} (hu : u ∈ units) (f : UnitFailure) :
    (b.settleFailure u f).Spares g home d p units := by
  unfold Batch.settleFailure
  cases hlog : logFile b.settings u with
  | error s => exact hb.stopped _
  | ok file =>
    have hfile : file ∈ u.files g := by
      rw [hb.settings] at hlog
      simp [WorkUnit.files, hlog, Except.toOption]
    have hwritten := hb.write (hb.target_ne hapart hu hfile) (errorLog u f)
    simp only
    split
    · exact hwritten.record _ _ _ nofun
    · split
      · exact hwritten.stopped _
      · exact hwritten.record _ _ _ nofun

theorem Spares.settleScript {u : WorkUnit} (hu : u ∈ units) (source : Text) :
    (b.settleScript u source).Spares g home d p units := by
  unfold Batch.settleScript
  have hwritten := hb.write (hb.target_ne hapart hu List.mem_cons_self) source
  simp only
  split
  · exact hwritten.record _ _ _ fun _ => ⟨u, hu, rfl⟩
  · split
    · exact hwritten.stopped _
    · exact hwritten.settleFailure hapart hu _

theorem Spares.settle {u : WorkUnit} (hu : u ∈ units) (e : Ending) :
    (b.settle u e).Spares g home d p units := by
  unfold Batch.settle
  split
  · exact hb
  · split
    · exact hb.settleScript hapart hu _
    · exact hb.settleFailure hapart hu _

theorem Spares.settleAll {ends : List (WorkUnit × Ending)} (hends : ∀ x ∈ ends, x.1 ∈ units) :
    (b.settleAll ends).Spares g home d p units :=
  List.foldlRecOn _ _ hb fun _ hb x hx => hb.settle hapart (hends x hx) x.2

theorem Spares.answer (path : Text) (e : Ending) :
    (b.answer path e).Spares g home d p units := by
  unfold Batch.answer
  split
  · exact hb
  · rename_i f hfind
    have hfiltered : ({ b with pending := b.pending.filter fun f => f.unit.path ≠ path } :
        Batch).Spares g home d p units :=
      { hb with pending := fun f hf => hb.pending f (List.mem_filter.mp hf).1 }
    exact hfiltered.settle hapart (hb.pending f (List.mem_of_find?_eq_some hfind)) e

omit hapart

theorem Spares.dispatch (limit now : Nat) {u : WorkUnit} (hu : u ∈ units) :
    (b.dispatch limit now u).Spares g home d p units := by
  have hpending : ∀ deadline, ∀ f ∈ b.pending ++ [{ unit := u, deadline }], f.unit ∈ units := by
    intro deadline f hf
    rcases List.mem_append.mp hf with hf | hf
    · exact hb.pending f hf
    · rw [List.mem_singleton.mp hf]
      exact hu
  unfold Batch.dispatch
  split
  · exact hb
  · simp only
    split
    · exact ⟨hb.settings, hb.home, hb.keeps, hpending _, hb.outputs⟩
    · split
      · exact ⟨hb.settings, hb.home, hb.keeps, hb.pending, hb.outputs⟩
      · exact ⟨hb.settings, hb.home, hb.keeps, hpending _, hb.outputs⟩

omit hb

include hapart

/-- Whatever happens in a run, it spares the place that none of its files goes to. -/
theorem isKept_spares : IsKept units (Spares g home d p units) :=
  { dispatch := fun _ hb limit now _ hu => hb.dispatch limit now hu
    answer := fun _ hb path e => hb.answer hapart path e
    clock := fun _ hb s _ => hb.stopped (some s) }

end Steps

end Batch

/-! ## Marked manifests -/

theorem noHalf_fieldKey {v : Json} {key : Text} (hv : v.IsWritable) (h : fieldKey v = .ok key) :
    key.NoHalf := by
  cases v with
  | str t =>
    cases h
    simpa [Json.IsWritable, Json.texts] using hv
  | bool b => cases b <;> cases h <;> simp [Json.line]
  | arr items => cases h
  | obj fields => cases h
  | _ => cases h; simp [Json.line]

/-- The paths of units are spelled with the output directory and names of their own. -/
theorem noHalf_path {g : Settings} (hdir : g.outputDir.NoHalf) {u : WorkUnit} {base : Text}
    (h : u.Filed g base) : u.path.NoHalf := by
  have hname := isFileName_append h.notEmpty h.glyphs isEnding_script
  rw [h.path, List.append_assoc _ base]
  simp only [Text.noHalf_append, Text.noHalf_ofString, and_true]
  exact ⟨hdir, ((Text.noHalf_append _ _).mp hname.noHalf).1⟩

theorem noHalf_marksOf {r : Report} {units : List WorkUnit}
    (hpaths : ∀ u ∈ units, u.path.NoHalf)
    (h : ∀ x ∈ r.outcomes, x.2.success = true → ∃ u ∈ units, x.2.outputFile = u.path) :
    NoHalfMarks (marksOf r units) := by
  intro m hm file hfile
  obtain ⟨u, -, rfl⟩ := List.mem_map.mp hm
  obtain ⟨o, ho, hmark⟩ := Option.bind_eq_some_iff.mp hfile
  obtain ⟨x, hx, rfl⟩ := mem_of_outcomeAt ho
  split at hmark
  · rename_i hsuccess
    cases hmark
    obtain ⟨v, hv, heq⟩ := h x hx hsuccess
    rw [heq]
    exact hpaths v hv
  · cases hmark

theorem writable_annotate {g : Settings} {manifest fields : List (Text × Json)}
    {units : List WorkUnit} {r : Report} (hkey : g.scriptField.IsWritable)
    (hmarks : NoHalfMarks (marksOf r units)) (hmanifest : (Json.obj manifest).IsWritable)
    (h : annotate g manifest units r = .ok fields) : (Json.obj fields).IsWritable := by
  unfold annotate at h
  simp only at h
  split at h
  · cases h
    exact hmanifest
  · obtain ⟨key, hfield, h⟩ := ok_of_bind_ok h
    cases h
    exact writable_markManifest (noHalf_fieldKey hkey hfield) hmarks hmanifest

theorem disk_of_prepare {g : Settings} {d disk : Disk} {home : Text} {manifest : Json}
    {r : Except RunError (List (Text × Json) × List WorkUnit)}
    (h : prepare g d home manifest = (disk, r)) :
    disk = (d.makeDirectories (Path.joined home g.outputDir)).1 :=
  (congrArg Prod.fst h).symm

/-- Compiling the units of a manifest leaves a place as it is that none of their files goes to, and
the manifest that it gives back can be saved if the one that it got can be. -/
theorem spares_compiles {g : Settings} {d : Disk} {home : Text} {manifest : List (Text × Json)}
    {trace : List Settlement} {run : RunResult (Report × Json)}
    (hrun : Compiles g d home (.obj manifest) trace run) {p : Place}
    (hp : (d.item? p).isSome = true)
    (hapart : ∀ units, collectUnits g manifest = .ok units → ∀ u ∈ units, ∀ file ∈ u.files g,
      d.target (Path.joined home file) ≠ p) :
    d.Keeps run.disk p ∧
      ∀ report marked, run.result = .ok (report, marked) → g.scriptField.IsWritable →
        g.outputDir.NoHalf → (Json.obj manifest).IsWritable → marked.IsWritable := by
  have hmade := Disk.keeps_makeDirectories hp (Path.joined home g.outputDir)
  cases hrun with
  | unprepared hprepared =>
    rw [← disk_of_prepare hprepared] at hmade
    exact ⟨hmade, nofun⟩
  | @ended disk _ units _ b hprepared hends =>
    rw [← disk_of_prepare hprepared] at hmade
    obtain ⟨-, hmanifest, hunits⟩ := prepare_ok_iff.mp hprepared
    cases hmanifest
    have hbegun : (begun g home disk units).Spares g home d p units :=
      ⟨rfl, rfl, hmade, nofun, nofun⟩
    have hspares := hends.kept (Batch.isKept_spares (hapart units hunits)) hbegun
    rw [disk_finish]
    refine ⟨hspares.keeps, ?_⟩
    intro report marked h hkey hdir hmanifest
    obtain ⟨-, -, -, fields, hfields, rfl⟩ := finish_ok_iff.mp h
    refine writable_annotate hkey (noHalf_marksOf ?_ hspares.outputs) hmanifest hfields
    intro u hu
    obtain ⟨base, hfiled⟩ := (nodup_paths hunits).2 u hu
    exact noHalf_path hdir hfiled

/-! ## Saving -/

theorem Disk.stat_put {d : Disk} {t : Text} {p : Place} {old : List UInt8}
    (h : d.stat t = .ok (p, .file old)) (content : List UInt8) :
    (d.put p (.file content)).stat t = .ok (p, .file content) := by
  obtain ⟨hcheck, hfollow, hitem⟩ := stat_ok_iff.mp h
  have hp : p ≠ [] := by
    rintro rfl
    cases hitem
  refine stat_ok_iff.mpr ⟨hcheck, ?_, ?_⟩
  · exact follow_put hp (by simp [hitem]) content hfollow
  · rw [item_put d hp, if_pos rfl]

theorem Disk.file_put {d : Disk} {t : Text} {p : Place} {old : List UInt8}
    (h : d.stat t = .ok (p, .file old)) (content : List UInt8) :
    (d.put p (.file content)).file? t = some content :=
  file_eq_some_iff.mpr ⟨p, stat_put h content⟩

/-- A manifest that is there is saved in its place, unless that is shut. -/
theorem Disk.saveManifest_eq {d : Disk} {path : Text} {p : Place} {old : List UInt8}
    (h : d.stat path = .ok (p, .file old)) (v : Json) :
    d.saveManifest path v = match d.unlocked p with
      | .error cause => (d, .error (.refused cause path))
      | .ok _ => d.writeAt p (v.pieces 0) := by
  unfold saveManifest writePieces
  rw [open_of_stat h]
  cases hunlocked : d.unlocked p with
  | error cause => rfl
  | ok q =>
    rw [← unlocked_ok hunlocked]
    rfl

/-- What saving a manifest does: it is not even opened, or it does not fit, or it is written up to
the first piece without a UTF-8 form. -/
theorem Disk.saveManifest_cases {d : Disk} {path : Text} {p : Place} {old : List UInt8}
    (h : d.stat path = .ok (p, .file old)) (v : Json) :
    let bytes := (encodePieces (v.pieces 0)).1
    (∃ cause, d.saveManifest path v = (d, .error (.refused cause path))) ∨
    (∃ room cause, d.hurdle? p = some (.full room cause) ∧ room < bytes.length ∧
      d.saveManifest path v = (d.put p (.file (bytes.take room)), .error (.brokenOff cause))) ∨
    d.saveManifest path v
      = (d.put p (.file bytes), (encodePieces (v.pieces 0)).2.mapError .unencodable) := by
  intro bytes
  rw [saveManifest_eq h]
  cases d.unlocked p with
  | error cause => exact .inl ⟨cause, rfl⟩
  | ok q =>
    refine .inr ?_
    simp only [writeAt]
    cases hbreak : d.breakAt? p bytes.length with
    | none =>
      refine .inr ?_
      rw [leftAt_of_fits hbreak]
    | some cause =>
      refine .inl ?_
      unfold breakAt? at hbreak
      unfold leftAt
      split at hbreak
      · rename_i room cause' hhurdle
        rw [Option.ite_none_right_eq_some] at hbreak
        obtain ⟨hroom, heq⟩ := hbreak
        cases heq
        exact ⟨room, cause, hhurdle, hroom, rfl⟩
      · cases hbreak

theorem stat_of_loadManifest {d : Disk} {path : Text} {manifest : List (Text × Json)}
    (h : d.loadManifest path = .ok manifest) :
    ∃ p content, d.stat path = .ok (p, .file content) := by
  unfold Disk.loadManifest at h
  cases hfile : d.file? path with
  | none =>
    rw [hfile] at h
    cases h
  | some content =>
    obtain ⟨p, hstat⟩ := Disk.file_eq_some_iff.mp hfile
    exact ⟨p, content, hstat⟩

/-- What a failed save of a manifest is: the manifest cannot be opened and is as it was, or it does
not fit and has lost its end, or it ends before a text without a UTF-8 form. -/
inductive SaveFails (d : Disk) (path : Text) (p : Place) (saved : Json) : RunError → Disk → Prop
  | refused {cause : DiskCause} :
      SaveFails d path p saved (.manifest (.unwritable (.refused cause path))) d
  | brokenOff {room : Nat} {cause : BreakCause} : d.hurdle? p = some (.full room cause) →
      room < (Disk.encodePieces (saved.pieces 0)).1.length →
      SaveFails d path p saved (.manifest (.unwritable (.brokenOff cause)))
        (d.put p (.file ((Disk.encodePieces (saved.pieces 0)).1.take room)))
  | unencodable {cause : EncodeError} : (Disk.encodePieces (saved.pieces 0)).2 = .error cause →
      SaveFails d path p saved (.stopped (.unencodable cause))
        (d.put p (.file (Disk.encodePieces (saved.pieces 0)).1))

/-- A run fails in compiling its units, or else in saving its manifest. -/
theorem failed_save {run : RunResult (Report × Json)} {path : Text} {p : Place}
    {old : List UInt8} (hstat : run.disk.stat path = .ok (p, .file old)) {e : RunError}
    (h : (run.save path).result = .error e) :
    (run.result = .error e ∧ (run.save path).disk = run.disk) ∨
    ∃ report marked, run.result = .ok (report, marked) ∧
      SaveFails run.disk path p marked e (run.save path).disk := by
  unfold RunResult.save at h ⊢
  cases hresult : run.result with
  | error cause =>
    simp only [hresult] at h ⊢
    cases h
    exact .inl ⟨rfl, trivial⟩
  | ok r =>
    obtain ⟨report, marked⟩ := r
    refine .inr ⟨report, marked, rfl, ?_⟩
    simp only [hresult] at h ⊢
    rcases Disk.saveManifest_cases hstat marked with
      ⟨cause, hsaved⟩ | ⟨room, cause, hhurdle, hroom, hsaved⟩ | hsaved
    · simp only [hsaved, DiskError.stop?] at h ⊢
      cases h
      exact .refused
    · simp only [hsaved, DiskError.stop?] at h ⊢
      cases h
      exact .brokenOff hhurdle hroom
    · cases hpieces : (Disk.encodePieces (marked.pieces 0)).2 with
      | ok a =>
        simp only [hsaved, hpieces, Except.mapError] at h
        cases h
      | error cause =>
        simp only [hsaved, hpieces, Except.mapError, DiskError.stop?] at h ⊢
        cases h
        exact .unencodable hpieces

/-! ## Failed runs -/

/-- The files that the units of a project can be written to. -/
def projectFiles (g : Settings) (d : Disk) (path : Text) : List Text :=
  match d.loadManifest path with
  | .error _ => []
  | .ok manifest =>
    match collectUnits g manifest with
    | .error _ => []
    | .ok units => units.flatMap (·.files g)

/-- No script and no error log of a unit goes to the place of the manifest. -/
def FilesApart (g : Settings) (d : Disk) (path : Text) : Prop :=
  ∀ file ∈ projectFiles g d path,
    d.target (Path.joined (Path.directoryOf d.work path) file) ≠ d.target path

instance (g : Settings) (d : Disk) (path : Text) : Decidable (FilesApart g d path) :=
  inferInstanceAs (Decidable (∀ file ∈ projectFiles g d path, _))

theorem FilesApart.target_ne {g : Settings} {d : Disk} {path : Text} (h : FilesApart g d path)
    {manifest : List (Text × Json)} (hload : d.loadManifest path = .ok manifest)
    {units : List WorkUnit} (hunits : collectUnits g manifest = .ok units) :
    ∀ u ∈ units, ∀ file ∈ u.files g,
      d.target (Path.joined (Path.directoryOf d.work path) file) ≠ d.target path := by
  intro u hu file hfile
  apply h file
  simp only [projectFiles, hload, hunits]
  exact List.mem_flatMap.mpr ⟨u, hu, hfile⟩

/-- A failed run, on any schedule, leaves the manifest as it was, byte by byte, if it fails before
it saves the manifest, and so in any case if the manifest fits on the disk and its texts, the key
of the marks and the output directory have a UTF-8 form. A run that fails at saving could not open
the manifest and left it as it was, or has left only as much of it as fits, or has met a text
without a UTF-8 form and left only the pieces before that text. -/
theorem failed_run_keeps_manifest (g : Settings) (d : Disk) (path : Text)
    (trace : List Settlement) (saved? : Option Json) (run : RunResult Report) (e : RunError)
    (hapart : FilesApart g d path) (hrun : RunsProject g d path trace saved? run)
    (h : run.result = .error e) :
    (saved? = none → run.disk.file? path = d.file? path) ∧
    (g.scriptField.IsWritable → g.outputDir.NoHalf →
      (∀ manifest, d.loadManifest path = .ok manifest → (Json.obj manifest).IsWritable) →
      (∀ room cause, d.hurdle? (d.target path) ≠ some (.full room cause)) →
      run.disk.file? path = d.file? path) ∧
    ∀ saved, saved? = some saved →
      let bytes := (Disk.encodePieces (saved.pieces 0)).1
      (∃ cause, e = .manifest (.unwritable (.refused cause path)) ∧
        run.disk.file? path = d.file? path) ∨
      (∃ room cause, e = .manifest (.unwritable (.brokenOff cause)) ∧
        d.hurdle? (d.target path) = some (.full room cause) ∧ room < bytes.length ∧
        run.disk.file? path = some (bytes.take room)) ∨
      ∃ cause, e = .stopped (.unencodable cause) ∧
        (Disk.encodePieces (saved.pieces 0)).2 = .error cause ∧
        run.disk.file? path = some bytes := by
  cases hrun with
  | unread hload => exact ⟨fun _ => rfl, fun _ _ _ _ => rfl, nofun⟩
  | @compiled manifest _ compiled hload hcompiles =>
    obtain ⟨p, content, hstat⟩ := stat_of_loadManifest hload
    obtain ⟨-, hfollow, hitem⟩ := Disk.stat_ok_iff.mp hstat
    have hplace : d.target path = p := Disk.target_of_follow hfollow
    obtain ⟨hkeeps, hwritable⟩ := spares_compiles hcompiles (p := p) (by simp [hitem])
      fun units hunits => hplace ▸ hapart.target_ne hload hunits
    have hthere := hkeeps.stat hstat
    have hfile : compiled.disk.file? path = d.file? path := by
      rw [Disk.file_eq_some_iff.mpr ⟨p, hthere⟩, Disk.file_eq_some_iff.mpr ⟨p, hstat⟩]
    rcases failed_save hthere h with ⟨hresult, hdisk⟩ | ⟨report, marked, hresult, hfails⟩
    · rw [hdisk, hresult]
      exact ⟨fun _ => hfile, fun _ _ _ _ => hfile, nofun⟩
    · rw [hplace, hresult]
      generalize (compiled.save path).disk = after at hfails ⊢
      refine ⟨nofun, ?_, ?_⟩
      · intro hkey hdir hmanifest hfits
        cases hfails with
        | refused => exact hfile
        | brokenOff hhurdle _ =>
          rw [hkeeps.hurdles] at hhurdle
          exact absurd hhurdle (hfits _ _)
        | unencodable hpieces =>
          have hwritten := hwritable report marked hresult hkey hdir (hmanifest manifest hload)
          rw [← noHalf_pieces 0, ← encodePieces_ok_iff, hpieces] at hwritten
          cases hwritten
      · rintro saved heq
        cases heq
        cases hfails with
        | @refused cause => exact .inl ⟨cause, rfl, hfile⟩
        | @brokenOff room cause hhurdle hroom =>
          rw [hkeeps.hurdles] at hhurdle
          exact .inr (.inl ⟨room, cause, rfl, hhurdle, hroom, Disk.file_put hthere _⟩)
        | @unencodable cause hpieces =>
          exact .inr (.inr ⟨cause, rfl, hpieces, Disk.file_put hthere _⟩)

/-- A script field that is no key: the script of the unit is there, but no mark can be set. -/
theorem unmarked_run_keeps_manifest :
    let text : Text := "\x7b\"objects\": [\x7b\"id\": \"a\", \"script\": \"[]\"\x7d]\x7d"
    let d : Disk :=
      { items := [(["p"], .directory), (["p", "project.json"], .ofText text)], work := "/p" }
    let worker := honestWorker fun _ => .all 0
    let run := runProject { scriptField := .arr [] } worker d "project.json"
    run.result.isOk = false ∧ (run.disk.file? "script/a.js").isSome = true ∧
      run.disk.file? "project.json" = d.file? "project.json" := by
  intro text d worker run
  obtain ⟨hapart, hunsaved, hfails, hscript⟩ :
      FilesApart { scriptField := .arr [] } d "project.json" ∧
      (savedManifest? { scriptField := .arr [] } worker d "project.json").isNone = true ∧
      run.result.isOk = false ∧ (run.disk.file? "script/a.js").isSome = true := by
    decide +kernel
  cases h : run.result with
  | ok report =>
    rw [h] at hfails
    cases hfails
  | error e =>
    have hanswers : ∀ u, worker u ≠ some .timedOut := by
      intro u
      simp only [worker, honestWorker, WorkUnit.ending]
      split <;> simp
    obtain ⟨trace, hrun, -⟩ :=
      runs_runProject { scriptField := .arr [] } hanswers d "project.json"
    obtain ⟨hkept, -⟩ := failed_run_keeps_manifest _ _ _ trace _ _ e hapart hrun h
    exact ⟨rfl, hscript, hkept (Option.isNone_iff_eq_none.mp hunsaved)⟩

/-- A half in a manifest, which an escape can spell, ends the saving inside the manifest. And an
error log with the name of the manifest takes its place. -/
theorem failed_run_loses_manifest :
    let holding (text : Text) : Disk :=
      { items := [(["p"], .directory), (["p", "project.json"], .ofText text)], work := "/p" }
    let halved := holding "\x7b\"name\": \"\\ud800\"\x7d"
    let run := runProject {} (honestWorker fun _ => .all 0) halved "project.json"
    let logged := holding ("\x7b\"objects\": [\x7b\"id\": \"project\", \"script\": \"[]\"\x7d, "
      ++ "\x7b\"id\": \"b\", \"script\": \"[]\"\x7d]\x7d")
    let g : Settings := { outputDir := ".", errorLogSuffix := .str ".json", scriptField := .arr [] }
    let worker : Worker :=
      fun u => some (if u.id = Text.ofString "project" then .lost 1 else .script "run();")
    let run' := runProject g worker logged "project.json"
    (FilesApart {} halved "project.json" ∧ run.result.isOk = false ∧
      run.disk.file? "project.json" = (Text.ofString "\x7b\n  \"name\": ").utf8.toOption) ∧
    run'.result.isOk = false ∧
      run'.disk.file? "project.json" ≠ logged.file? "project.json" := by
  decide +kernel

end BlockScript
