-- Running a project again. The second run loads the manifest that the first one
-- saved, finds the same units in it, and writes to every place what is there
-- already, so it gives the same report and leaves every file as it is.
import BlockScript.Proofs.Directories
import BlockScript.Proofs.Encoding
import BlockScript.Proofs.Remarking

namespace BlockScript

/-! ## Writing again -/

theorem setItem_same {p : Place} {item : Item} {items : List (Place × Item)}
    (h : items.lookup p = some item) : setItem p item items = items := by
  induction items with
  | nil => cases h
  | cons i rest ih =>
    obtain ⟨q, old⟩ := i
    rw [setItem]
    by_cases hq : q = p
    · subst hq
      rw [List.lookup_cons_self] at h
      cases h
      rw [if_pos rfl]
    · rw [List.lookup_cons, beq_eq_false_iff_ne.mpr (Ne.symm hq)] at h
      rw [if_neg hq, ih h]

/-- What is there already can be put there again. -/
theorem Disk.put_same {d : Disk} {p : Place} {item : Item} (hp : p ≠ [])
    (h : d.item? p = some item) : d.put p item = d := by
  rw [item?, if_neg (by simpa using hp)] at h
  rw [put, setItem_same h]

theorem Disk.putAll_same {d : Disk} {files : List (Place × Text)}
    (h : ∀ w ∈ files, w.1 ≠ [] ∧ d.item? w.1 = some (d.itemWith w.1 w.2)) :
    d.putAll files = d := by
  induction files with
  | nil => rfl
  | cons w rest ih =>
    obtain ⟨⟨hne, hitem⟩, hrest⟩ := List.forall_mem_cons.mp h
    rw [putAll, List.foldl_cons, put_same hne hitem]
    exact ih hrest

/-- A manifest is saved if its place is not shut, and it fits there, and all its texts have a UTF-8
form. -/
theorem Disk.saveManifest_ok_iff {d after : Disk} {path : Text} {p : Place} {old : List UInt8}
    {v : Json} (h : d.stat path = .ok (p, .file old)) :
    let bytes := (encodePieces (v.pieces 0)).1
    d.saveManifest path v = (after, .ok ()) ↔
      d.unlocked p = .ok p ∧ d.breakAt? p bytes.length = none ∧
        (encodePieces (v.pieces 0)).2 = .ok () ∧ after = d.put p (.file bytes) := by
  intro bytes
  rw [saveManifest_eq h]
  cases hunlocked : d.unlocked p with
  | error cause => simp
  | ok q =>
    obtain rfl := unlocked_ok hunlocked
    simp only [writeAt]
    cases hbreak : d.breakAt? p bytes.length with
    | some cause => simp
    | none =>
      rw [leftAt_of_fits hbreak]
      cases (encodePieces (v.pieces 0)).2 with
      | error e => simp [Except.mapError]
      | ok a => simp [Except.mapError, bytes, eq_comm]

/-- A manifest that was saved: it is there with its bytes, nothing else has changed, and it can be
saved again. -/
theorem Disk.saved_again {d after : Disk} {path : Text} {p : Place} {old : List UInt8} {v : Json}
    (h : d.stat path = .ok (p, .file old)) (hsaved : d.saveManifest path v = (after, .ok ())) :
    (encodePieces (v.pieces 0)).2 = .ok () ∧
      after.file? path = some (encodePieces (v.pieces 0)).1 ∧ d.SameShape after ∧
      (∀ q, q ≠ p → after.item? q = d.item? q) ∧ after.saveManifest path v = (after, .ok ()) := by
  obtain ⟨-, -, hitem⟩ := stat_ok_iff.mp h
  have hp : p ≠ [] := by
    rintro rfl
    cases hitem
  obtain ⟨hunlocked, hfits, hencoded, rfl⟩ := (saveManifest_ok_iff h).mp hsaved
  have hstat := stat_put h (encodePieces (v.pieces 0)).1
  refine ⟨hencoded, file_put h _, sameShape_put hitem _, ?_, ?_⟩
  · intro q hq
    rw [item_put d hp, if_neg hq]
  · refine (saveManifest_ok_iff hstat).mpr ⟨hunlocked, hfits, hencoded, ?_⟩
    rw [put_same hp (stat_ok_iff.mp hstat).2.2]

namespace Batch

/-- Deeds whose files are there change the report only. -/
theorem carryAll_again (b : Batch) (deedOf : WorkUnit × Ending → Deed) {d : Disk}
    {ends : List (WorkUnit × Ending)}
    (h : ∀ x ∈ ends, ∀ w ∈ (deedOf x).writes d, w.1 ≠ [] ∧ d.item? w.1 = some w.2) :
    ({ b with disk := d } : Batch).carryAll deedOf ends
      = { b.carryAll deedOf ends with disk := d } := by
  induction ends generalizing b with
  | nil => rfl
  | cons x rest ih =>
    obtain ⟨hx, hrest⟩ := List.forall_mem_cons.mp h
    have hcarry : ({ b with disk := d } : Batch).carry x.1 (deedOf x)
        = { b.carry x.1 (deedOf x) with disk := d } := by
      simp only [carry]
      rw [Disk.putAll_same fun w hw => hx _ (List.mem_map_of_mem hw)]
    rw [carryAll, List.foldl_cons, hcarry]
    exact ih (b.carry x.1 (deedOf x)) hrest

section Settled

variable {b : Batch} {suffix : Text} {ends : List (WorkUnit × Ending)}
  (hends : ∀ x ∈ ends, b.Handles suffix x.1) (hrunning : b.stop = none)
  (hstop : (b.settleAll ends).stop = none)

include hends

theorem ne_nil_of_writes {d : Disk} {x : WorkUnit × Ending} (hx : x ∈ ends) {w : Place × Item}
    (hw : w ∈ (b.deed suffix x.1 x.2).writes d) : w.1 ≠ [] := by
  obtain ⟨f, hf, rfl⟩ := List.mem_map.mp hw
  exact ne_nil_of_hasPlace (hends x hx) (hasPlace_deed (hends x hx) hf)

include hrunning hstop

/-- Every file that was written is there in the end. -/
theorem written_settleAll (honly : ∀ x ∈ ends, ∀ y ∈ ends, x.1.path = y.1.path → x = y) :
    ∀ x ∈ ends, ∀ w ∈ (b.deed suffix x.1 x.2).writes b.disk,
      (b.settleAll ends).disk.item? w.1 = some w.2 := by
  intro x hx w hw
  obtain ⟨-, -, hcore⟩ := done_of_running hends hrunning hstop
  rw [← disk_core, hcore, item_carryAll _ _ _ fun y hy f hf =>
    ne_nil_of_writes (d := b.disk) hends hy (List.mem_map_of_mem hf)]
  apply latest_eq_some
  · -- a place belongs to one unit, and so to one deed
    intro w' hw' hplace
    obtain ⟨y, hy, hw'⟩ := List.mem_flatMap.mp hw'
    rw [eq_of_mem_writes (hends y hy) (hends x hx) (honly y hy x hx) hw' hw hplace]
  · exact .inr (List.mem_flatMap.mpr ⟨x, hx, hw⟩)

/-- Units that are settled again on a disk that has their files leave it as it is. -/
theorem settleAll_again {d : Disk} (halike : b.Alike { b with disk := d })
    (hwritten : ∀ x ∈ ends, ∀ w ∈ (b.deed suffix x.1 x.2).writes b.disk,
      d.item? w.1 = some w.2) :
    (({ b with disk := d } : Batch).settleAll ends).core
      = { (b.settleAll ends).core with disk := d } := by
  obtain ⟨hdone, -, hcore⟩ := done_of_running hends hrunning hstop
  have hhandles : ∀ x ∈ ends, ({ b with disk := d } : Batch).Handles suffix x.1 :=
    fun x hx => halike.handles (hends x hx)
  have hdeed : ∀ x ∈ ends, ({ b with disk := d } : Batch).deed suffix x.1 x.2
      = b.deed suffix x.1 x.2 := fun x hx => halike.deed (hends x hx) x.2
  have hagain : (({ b with disk := d } : Batch).settleAll ends).stop = none := by
    cases ends with
    | nil => exact hrunning
    | cons x rest =>
      have hblocked := (hdone x List.mem_cons_self).1
      rw [← halike.folder] at hblocked
      refine (settleAll_running hhandles hrunning hblocked).1.mpr fun y hy => ?_
      rw [hdeed y hy]
      exact (hdone y hy).2
  obtain ⟨-, -, hcore'⟩ := done_of_running hhandles hrunning hagain
  have hsame : ({ b with disk := d } : Batch).core.carryAll
      (fun x => ({ b with disk := d } : Batch).deed suffix x.1 x.2) ends
        = ({ b.core with disk := d } : Batch).carryAll (fun x => b.deed suffix x.1 x.2) ends :=
    List.foldl_ext _ _ _ fun c x hx => congrArg (c.carry x.1) (hdeed x hx)
  rw [hcore', hsame, carryAll_again b.core, hcore]
  intro x hx w hw
  refine ⟨ne_nil_of_writes hends hx hw, hwritten x hx w ?_⟩
  rw [← Deed.writes_congr halike.hurdles]
  exact hw

end Settled

end Batch

/-! ## Runs in order -/

/-- Compiling the units of a manifest in their order, if all of them end. -/
theorem transpile_of_settled {g : Settings} {d disk : Disk} {home : Text} {worker : Worker}
    {manifest fields : List (Text × Json)} {units : List WorkUnit}
    (hmade : d.makeDirectories (Path.joined home g.outputDir) = (disk, .ok ()))
    (hunits : collectUnits g manifest = .ok units)
    (hwaits : units ≠ [] → Batch.canWait g.unitTimeout = true)
    (hended : ((g.endings worker units).map Prod.fst).Perm units)
    (hstop : ((dispatched g home disk units).settleAll (g.endings worker units)).stop = none)
    (hfields : annotate g manifest units
      ((dispatched g home disk units).settleAll (g.endings worker units)).report = .ok fields) :
    let b := (dispatched g home disk units).settleAll (g.endings worker units)
    (transpile g worker d home (.obj manifest)).disk = b.disk ∧
      (transpile g worker d home (.obj manifest)).result = .ok (b.report, .obj fields) := by
  intro b
  obtain ⟨hcore, hpending⟩ := Batch.work_settles (b := begun g home disk units) rfl rfl hwaits
    worker (nodup_paths hunits).1
  rw [core_begun] at hcore
  have hidle : Batch.idle g worker units = [] := by
    rw [Batch.idle, List.map_eq_nil_iff, List.filter_eq_nil_iff]
    intro u hu
    obtain ⟨x, hx, rfl⟩ := List.mem_map.mp (hended.mem_iff.mpr hu)
    simp [(mem_endings.mp hx).2]
  have hreport : ((begun g home disk units).work worker units).report = b.report := by
    rw [← Batch.report_core, hcore]
    rfl
  rw [transpile_eq (prepare_ok_iff.mpr ⟨hmade, rfl, hunits⟩), disk_finish, finish_ok_iff]
  refine ⟨?_, ?_, hpending.trans hidle, hreport.symm, fields, ?_, rfl⟩
  · rw [← Batch.disk_core, hcore]
    rfl
  · rw [← Batch.stop_core, hcore]
    exact hstop
  · rw [hreport]
    exact hfields

/-- A run gives a report if its units are compiled and its manifest is saved. -/
theorem save_ok_iff {run : RunResult (Report × Json)} {path : Text} {after : Disk}
    {report : Report} :
    ((run.save path).result = .ok report ∧ (run.save path).disk = after) ↔
      ∃ marked, run.result = .ok (report, marked) ∧
        run.disk.saveManifest path marked = (after, .ok ()) := by
  unfold RunResult.save
  cases hresult : run.result with
  | error e => simp
  | ok r =>
    obtain ⟨made, marked⟩ := r
    rcases hsaved : run.disk.saveManifest path marked with ⟨disk, saved⟩
    cases saved with
    | error e => simp [hsaved]
    | ok a => simp [hsaved]

theorem runProject_ok_iff {g : Settings} {worker : Worker} {d after : Disk} {path : Text}
    {report : Report} :
    ((runProject g worker d path).result = .ok report ∧ (runProject g worker d path).disk = after) ↔
      ∃ manifest marked, d.loadManifest path = .ok manifest ∧
        (transpile g worker d (Path.directoryOf d.work path) (.obj manifest)).result
          = .ok (report, marked) ∧
        (transpile g worker d (Path.directoryOf d.work path) (.obj manifest)).disk.saveManifest path
          marked = (after, .ok ()) := by
  unfold runProject
  cases d.loadManifest path with
  | error e => simp
  | ok manifest => simp [save_ok_iff]

/-! ## The manifest in a run -/

section Manifest

variable {g : Settings} {suffix : Text} (hlogs : g.errorLogSuffix = .str suffix)
  (hsuffix : IsLogSuffix suffix) (hdir : Path.IsName g.outputDir) {d disk : Disk} {path : Text}
  {p : Place} {old : List UInt8} (hstat : d.stat path = .ok (p, .file old))
  (hmade : d.makeDirectories (Path.joined (Path.directoryOf d.work path) g.outputDir)
    = (disk, .ok ()))

include hstat

theorem target_manifest : d.target path = p ∧ d.target path ≠ [] := by
  obtain ⟨-, hfollow, hitem⟩ := Disk.stat_ok_iff.mp hstat
  have htarget : d.target path = p := Disk.target_of_follow hfollow
  refine ⟨htarget, ?_⟩
  intro hnil
  rw [← htarget, hnil] at hitem
  cases hitem

include hmade

/-- The output directory of a project is made without a change to its manifest. -/
theorem keeps_made : d.Keeps disk p := by
  obtain ⟨-, -, hitem⟩ := Disk.stat_ok_iff.mp hstat
  have hthere : (d.item? p).isSome = true := by simp [hitem]
  have hkeeps := Disk.keeps_makeDirectories hthere
    (Path.joined (Path.directoryOf d.work path) g.outputDir)
  rw [hmade] at hkeeps
  exact hkeeps

include hdir

/-- The output directory is not made again on a disk that keeps the directories. -/
theorem makeDirectories_again {after : Disk} (hwork : after.work = disk.work)
    (hkeeps : ∀ q, disk.item? q = some .directory → after.item? q = some .directory) :
    after.makeDirectories (Path.joined (Path.directoryOf d.work path) g.outputDir)
      = (after, .ok ()) := by
  obtain ⟨root, names, name, hroot, hnames, -, hspelled⟩ :=
    outputDir_spelled hdir (target_manifest hstat).2
  rw [hspelled] at hmade ⊢
  have hthere := Disk.isDirectory_of_make hroot hnames hdir hmade
  exact Disk.makeDirectories_there hroot hnames hdir (Disk.isDirectory_mono hwork hkeeps hthere)

include hlogs hsuffix

/-- No file of a unit goes to the place of the manifest. -/
theorem units_apart {manifest : List (Text × Json)} {units : List WorkUnit}
    (hunits : collectUnits g manifest = .ok units) : ∀ u ∈ units, ∀ file ∈ u.files g,
    disk.target (Path.joined (Path.directoryOf d.work path) file) ≠ p := by
  intro u hu file hfile
  obtain ⟨htarget, hne⟩ := target_manifest hstat
  obtain ⟨base, hfiled⟩ := (nodup_paths hunits).2 u hu
  rw [(keeps_made hstat hmade).target, ← htarget]
  exact files_apart hlogs hsuffix hdir hne hfiled file hfile

omit hmade

variable {manifest : List (Text × Json)} {units : List WorkUnit}
  {ends : List (WorkUnit × Ending)} {marked : List (Text × Json)}
  {run : RunResult (Report × Json)}
  (h : Compiled g d (Path.directoryOf d.work path) manifest disk units ends marked run)

include h

theorem place_ne_manifest {x : WorkUnit × Ending} (hx : x ∈ ends) {w : Place × Item}
    (hw : w ∈ ((dispatched g (Path.directoryOf d.work path) disk units).deed suffix x.1
      x.2).writes disk) : w.1 ≠ p := by
  have hapart := units_apart hlogs hsuffix hdir hstat h.made h.collected x.1 (h.mem_units hx)
  obtain ⟨f, hf, rfl⟩ := List.mem_map.mp hw
  rcases Batch.opens_deed hf with hopen | hopen
  · have htarget := (Disk.target_of_open hopen).1
    simp only
    rw [← htarget]
    exact hapart _ List.mem_cons_self
  · have htarget := (Disk.target_of_open hopen).1
    simp only
    rw [← htarget]
    exact hapart _ (by simp [WorkUnit.files, logFile_eq hlogs, Except.toOption])

/-- The manifest stays as it is while the units are compiled. -/
theorem keeps_compiled : disk.Keeps run.disk p := by
  have hbegun : (dispatched g (Path.directoryOf d.work path) disk units).Spares g
      (Path.directoryOf d.work path) disk p units := ⟨rfl, rfl, .refl disk p, nofun, nofun⟩
  rw [h.leaves]
  exact (hbegun.settleAll (units_apart hlogs hsuffix hdir hstat h.made h.collected)
    fun x hx => h.mem_units hx).keeps

/-- On a disk that differs from the one after compiling in the manifest only, the output directory
is there, the same files can be written, and settling the units again leaves the disk as it is. -/
theorem settled_after {after : Disk} (hshape : run.disk.SameShape after)
    (hsame : ∀ q, q ≠ p → after.item? q = run.disk.item? q) :
    after.makeDirectories (Path.joined (Path.directoryOf d.work path) g.outputDir)
      = (after, .ok ()) ∧
    (dispatched g (Path.directoryOf d.work path) disk units).Alike
      (dispatched g (Path.directoryOf d.work path) after units) ∧
    ((dispatched g (Path.directoryOf d.work path) after units).settleAll ends).core
      = { ((dispatched g (Path.directoryOf d.work path) disk units).settleAll ends).core with
          disk := after } := by
  have hkeeps := keeps_compiled hlogs hsuffix hdir hstat h
  have hends := h.handles hlogs hsuffix
  obtain ⟨-, hsettled, -⟩ := Batch.done_of_running hends rfl h.running
  have hwritten := Batch.written_settleAll hends rfl h.running fun x hx y hy => h.only hx hy
  rw [← h.leaves] at hwritten
  have halike : (dispatched g (Path.directoryOf d.work path) disk units).Alike
      (dispatched g (Path.directoryOf d.work path) after units) := by
    refine ⟨rfl, rfl, hshape.work.trans hkeeps.work, hshape.hurdles.trans hkeeps.hurdles, ?_, ?_⟩
    · intro name hname
      rw [← hsettled.opens name hname, ← h.leaves]
      exact hshape.opens _
    · intro name hname
      rw [← hsettled.places name hname, ← h.leaves]
      exact hshape.places _
  refine ⟨?_, halike, ?_⟩
  · refine makeDirectories_again hdir hstat h.made (hshape.work.trans hkeeps.work) ?_
    intro q hq
    exact (hshape.directory q).mpr (hkeeps.directories q hq)
  · refine Batch.settleAll_again hends rfl h.running halike ?_
    intro x hx w hw
    rw [hsame _ (place_ne_manifest hlogs hsuffix hdir hstat h hx hw)]
    exact hwritten x hx w hw

end Manifest

/-! ## Saved projects -/

/-- A project after a run that compiled its units and saved its manifest: whoever runs it again
finds the same units, the output directory and all files. -/
structure Saved (g : Settings) (home : Text) (disk : Disk) (units : List WorkUnit)
    (ends : List (WorkUnit × Ending)) (marked : List (Text × Json)) (path : Text) (after : Disk) :
    Prop where
  stands : Path.directoryOf after.work path = home
  loads : after.loadManifest path = .ok marked
  collected : collectUnits g marked = .ok units
  made : after.makeDirectories (Path.joined home g.outputDir) = (after, .ok ())
  alike : (dispatched g home disk units).Alike (dispatched g home after units)
  settled : ((dispatched g home after units).settleAll ends).core
    = { ((dispatched g home disk units).settleAll ends).core with disk := after }
  annotated : annotate g marked units ((dispatched g home disk units).settleAll ends).report
    = .ok marked
  saves : after.saveManifest path (.obj marked) = (after, .ok ())

theorem saved_of_compiled {g : Settings} {suffix key : Text}
    (hlogs : g.errorLogSuffix = .str suffix) (hsuffix : IsLogSuffix suffix)
    (hfield : g.scriptField = .str key)
    (hobjects : objectShelf.Free key) (hfunctions : functionShelf.Free key)
    (hdir : Path.IsName g.outputDir) {d disk after : Disk} {path : Text}
    {manifest marked : List (Text × Json)} {units : List WorkUnit}
    {ends : List (WorkUnit × Ending)} {run : RunResult (Report × Json)}
    (hload : d.loadManifest path = .ok manifest)
    (h : Compiled g d (Path.directoryOf d.work path) manifest disk units ends marked run)
    (hsaved : run.disk.saveManifest path (.obj marked) = (after, .ok ())) :
    Saved g (Path.directoryOf d.work path) disk units ends marked path after := by
  obtain ⟨p, old, hstat⟩ := stat_of_loadManifest hload
  have hmade := keeps_made hstat h.made
  have hkeeps := keeps_compiled hlogs hsuffix hdir hstat h
  obtain ⟨hencoded, hfile, hshape, hsame, hsavedAgain⟩ :=
    Disk.saved_again (hkeeps.stat (hmade.stat hstat)) hsaved
  obtain ⟨hthere, halike, hsettled⟩ := settled_after hlogs hsuffix hdir hstat h hshape hsame
  have hwork : after.work = d.work := hshape.work.trans (hkeeps.work.trans hmade.work)
  refine ⟨by rw [hwork], ?_, ?_, hthere, halike, hsettled, ?_, hsavedAgain⟩
  · exact loadManifest_of_saved
      (canonical_annotate hfield h.annotated (canonical_of_loadManifest hload)) hencoded hfile
  · exact (collectUnits_annotate hfield h.annotated hobjects hfunctions).trans h.collected
  · exact annotate_twice hfield h.annotated hobjects hfunctions

/-! ## Running again -/

/-- A run that gives a report gives the same report when it is made again, and leaves the disk as
the first run left it: every script, every error log and the manifest, byte by byte. -/
theorem second_run_changes_nothing (g : Settings) (worker : Worker) (d : Disk) (path : Text)
    (report : Report) (hlogs : g.errorLogSuffix = .str ".error.log")
    (hfield : g.scriptField = .str "scriptFile") (hdir : g.outputDir = "script")
    (h : (runProject g worker d path).result = .ok report) :
    let run := runProject g worker d path
    let again := runProject g worker run.disk path
    again.result = .ok report ∧ again.disk = run.disk := by
  intro run again
  have hname : Path.IsName g.outputDir := by
    rw [hdir]
    exact ⟨by decide, by decide, by decide, by decide⟩
  obtain ⟨manifest, marked, hload, hresult, hsaved⟩ := runProject_ok_iff.mp ⟨h, rfl⟩
  obtain ⟨_, heq, disk, units, fields, rfl, hcompiled⟩ := compiled_of_transpile hresult
  cases heq
  have hproject := saved_of_compiled hlogs isLogSuffix_usual hfield
    ⟨by decide, by decide, by decide⟩ ⟨by decide, by decide, by decide⟩ hname hload hcompiled hsaved
  cases hresult.symm.trans hcompiled.result
  have hreport : ((dispatched g (Path.directoryOf d.work path) run.disk units).settleAll
      (g.endings worker units)).report = ((dispatched g (Path.directoryOf d.work path) disk
        units).settleAll (g.endings worker units)).report := by
    rw [← Batch.report_core, hproject.settled]
    rfl
  obtain ⟨hdisk, hagain⟩ := transpile_of_settled hproject.made hproject.collected
    hcompiled.waits hcompiled.ended
    (by rw [← Batch.stop_core, hproject.settled]; exact hcompiled.running)
    (by rw [hreport]; exact hproject.annotated)
  refine runProject_ok_iff.mpr ⟨fields, .obj fields, hproject.loads, ?_, ?_⟩
  · rw [hproject.stands, hagain, hreport]
  · rw [hproject.stands, hdisk, ← Batch.disk_core, hproject.settled]
    exact hproject.saves

/-- Two reports that say the same, though in another order. -/
structure Report.Same (r r' : Report) : Prop where
  outcomes : ∀ path, outcomeAt? path r'.outcomes = outcomeAt? path r.outcomes
  total : r'.total = r.total
  started : r'.started = r.started
  processed : r'.processed = r.processed

/-- Units that end the same way are settled the same way, in whatever order. -/
theorem perm_of_endings {ends ends' : List (WorkUnit × Ending)} {units : List WorkUnit}
    (hnodup : units.Nodup) (h : (ends.map Prod.fst).Perm units)
    (h' : (ends'.map Prod.fst).Perm units)
    (hsame : ∀ x ∈ ends, ∀ x' ∈ ends', x.1 = x'.1 → x = x') : ends.Perm ends' := by
  have hends : ends.Nodup := (h.nodup_iff.mpr hnodup).of_map
  have hends' : ends'.Nodup := (h'.nodup_iff.mpr hnodup).of_map
  rw [List.perm_ext_iff_of_nodup hends hends']
  intro x
  constructor
  · intro hx
    obtain ⟨x', hx', hunit⟩ :=
      List.mem_map.mp ((h.trans h'.symm).mem_iff.mp (List.mem_map_of_mem hx))
    rw [hsame x hx x' hx' hunit.symm]
    exact hx'
  · intro hx'
    obtain ⟨x', hx, hunit⟩ :=
      List.mem_map.mp ((h.trans h'.symm).mem_iff.mpr (List.mem_map_of_mem hx'))
    rw [← hsame x' hx x hx' hunit]
    exact hx

section Again

variable {g : Settings} {suffix : Text} (hlogs : g.errorLogSuffix = .str suffix)
  (hsuffix : IsLogSuffix suffix) {d disk after : Disk} {home path : Text}
  {manifest marked : List (Text × Json)} {units : List WorkUnit}
  {ends : List (WorkUnit × Ending)} {run : RunResult (Report × Json)}
  (h : Compiled g d home manifest disk units ends marked run)
  (hproject : Saved g home disk units ends marked path after) {trace : List Settlement}
  {b : Batch} (hends : (begun g home after units).Ends units trace b)
  (hsame : ∀ x ∈ ends, ∀ s ∈ trace, x.1 = s.flight.unit → x.2 = s.ending)

include hlogs hsuffix h hproject hends hsame

/-- Units that end as before do not stop a second run. -/
theorem running_again : b.stop = none := by
  obtain ⟨hdone, -⟩ := Batch.done_of_running (h.handles hlogs hsuffix) rfl h.running
  refine running_of_encodable hlogs hsuffix h.collected hends h.waits ?_ ?_
  · intro hne
    obtain ⟨u, hu⟩ := List.exists_mem_of_ne_nil _ hne
    obtain ⟨e, he⟩ := h.exists_ending hu
    exact (hdone _ he).1
  · intro s hs hunit
    obtain ⟨e, he⟩ := h.exists_ending hunit
    obtain rfl : e = s.ending := hsame _ he s hs rfl
    rw [hproject.alike.deed (h.handles hlogs hsuffix _ he)]
    exact (hdone _ he).2

/-- A second run that comes to its end has settled the units as before, and left the disk as it
was. -/
theorem settled_again (hpending : b.pending = []) :
    Report.Same ((dispatched g home disk units).settleAll ends).report b.report ∧
    annotate g marked units b.report = .ok marked ∧ after.SameShape b.disk ∧
    ∀ p, b.disk.item? p = after.item? p := by
  have hstop := running_again hlogs hsuffix h hproject hends hsame
  obtain ⟨-, hparted, hcore, -⟩ := hends.settles h.collected hstop
  have hended : ((trace.map Settlement.pair).map Prod.fst).Perm units := by
    rw [hpending] at hparted
    rw [List.map_map]
    exact hparted
  have hperm : ends.Perm (trace.map Settlement.pair) := by
    refine perm_of_endings (nodup_paths h.collected).1.of_map h.ended hended ?_
    intro x hx x' hx' hunit
    obtain ⟨s, hs, rfl⟩ := List.mem_map.mp hx'
    exact Prod.ext hunit (hsame x hx s hs hunit)
  -- on the disk that the first run left, the order of the second one is of no account
  have hhandles : ∀ x ∈ ends, (dispatched g home after units).Handles suffix x.1 :=
    fun x hx => hproject.alike.handles (h.handles hlogs hsuffix x hx)
  have hhandles' : ∀ x ∈ trace.map Settlement.pair,
      (dispatched g home after units).Handles suffix x.1 :=
    fun x hx => hhandles x (hperm.mem_iff.mpr hx)
  have hagain : ((dispatched g home after units).settleAll ends).stop = none := by
    rw [← Batch.stop_core, hproject.settled]
    exact h.running
  obtain ⟨hdone, -⟩ := Batch.done_of_running hhandles rfl hagain
  have hresult := Batch.sameResult_settleAll hhandles h.nodup (fun x hx => (hdone x hx).2) hperm
  have hsettled : ((dispatched g home after units).settleAll (trace.map Settlement.pair)).stop
      = none := hresult.stop.symm.trans hagain
  obtain ⟨-, halike, -⟩ := Batch.done_of_running hhandles' rfl hsettled
  have hdisk : b.disk = ((dispatched g home after units).settleAll
      (trace.map Settlement.pair)).disk := by
    rw [← Batch.disk_core, hcore]
    rfl
  have hreport : b.report = ((dispatched g home after units).settleAll
      (trace.map Settlement.pair)).report := by
    rw [← Batch.report_core, hcore]
    rfl
  have hfirst : ((dispatched g home after units).settleAll ends).report
      = ((dispatched g home disk units).settleAll ends).report := by
    rw [← Batch.report_core, hproject.settled]
    rfl
  have hitems : ∀ p, b.disk.item? p = after.item? p := by
    intro p
    rw [hdisk, ← hresult.items, ← Batch.disk_core, hproject.settled]
  refine ⟨?_, ?_, ?_, hitems⟩
  · rw [hreport, ← hfirst]
    exact ⟨fun path => (hresult.outcomes path).symm, hresult.total.symm, hresult.started.symm,
      hresult.processed.symm⟩
  · rw [hreport, ← hresult.annotate, hfirst]
    exact hproject.annotated
  · rw [hdisk] at hitems ⊢
    exact ⟨halike.work, halike.hurdles, fun q => by rw [hitems], fun q => by rw [hitems]⟩

end Again

/-- A manifest that stands on another disk with the same items is saved there without a change. -/
theorem Disk.saved_elsewhere {d d' : Disk} {path : Text} {p : Place} {content : List UInt8}
    {v : Json} (h : d.stat path = .ok (p, .file content))
    (hsaved : d.saveManifest path v = (d, .ok ())) (hshape : d.SameShape d')
    (hitems : ∀ q, d'.item? q = d.item? q) : d'.saveManifest path v = (d', .ok ()) := by
  obtain ⟨hcheck, hfollow, hitem⟩ := stat_ok_iff.mp h
  have hstat : d'.stat path = .ok (p, .file content) :=
    stat_ok_iff.mpr ⟨hcheck, by rw [hshape.names, hshape.follow, hfollow], by rw [hitems, hitem]⟩
  have hp : p ≠ [] := by
    rintro rfl
    cases hitem
  obtain ⟨hunlocked, hfits, hencoded, hput⟩ := (saveManifest_ok_iff h).mp hsaved
  refine (saveManifest_ok_iff hstat).mpr ⟨?_, ?_, hencoded, ?_⟩
  · rw [unlocked, hshape.hurdles]
    exact hunlocked
  · rw [breakAt?, hshape.hurdles]
    exact hfits
  · have hthere : d.item? p = some (.file (encodePieces (v.pieces 0)).1) := by
      rw [hput, item_put d hp, if_pos rfl]
    rw [put_same hp ((hitems p).trans hthere)]

/-- A run on any schedule that gives a report, made again on any schedule, gives a report that says
the same, and leaves every place as the first run left it, unless a unit that ended before now never
ends. -/
theorem second_run_changes_nothing_on_any_schedule {g : Settings} {suffix key : Text}
    (hlogs : g.errorLogSuffix = .str suffix) (hsuffix : IsLogSuffix suffix)
    (hfield : g.scriptField = .str key) (hobjects : objectShelf.Free key)
    (hfunctions : functionShelf.Free key) (hdir : Path.IsName g.outputDir) {d : Disk} {path : Text}
    {trace trace' : List Settlement} {saved? saved?' : Option Json} {run run' : RunResult Report}
    (hrun : RunsProject g d path trace saved? run)
    (hrun' : RunsProject g run.disk path trace' saved?' run')
    (hsame : ∀ s ∈ trace, ∀ s' ∈ trace', s.flight.unit = s'.flight.unit → s.ending = s'.ending)
    {report : Report} (h : run.result = .ok report) :
    run'.result = .error .endless ∨
      ∃ report', run'.result = .ok report' ∧ report.Same report' ∧
        ∀ p, run'.disk.item? p = run.disk.item? p := by
  cases hrun with
  | unread hload => cases h
  | @compiled manifest _ first hload hcompiles =>
    obtain ⟨marked, hresult, hsaved⟩ := save_ok_iff.mp ⟨h, rfl⟩
    obtain ⟨_, heq, disk, units, fields, rfl, hcompiled⟩ := compiled_of_compiles hcompiles hresult
    cases heq
    have hproject := saved_of_compiled hlogs hsuffix hfield hobjects hfunctions hdir hload
      hcompiled hsaved
    cases hresult.symm.trans hcompiled.result
    generalize (first.save path).disk = after at hproject hrun' ⊢
    cases hrun' with
    | unread hload' => cases hproject.loads.symm.trans hload'
    | @compiled _ _ second hload' hcompiles' =>
      cases hproject.loads.symm.trans hload'
      rw [hproject.stands] at hcompiles'
      have hprepared := prepare_ok_iff.mpr ⟨hproject.made, rfl, hproject.collected⟩
      cases hcompiles' with
      | unprepared hunprepared => cases hprepared.symm.trans hunprepared
      | @ended _ _ _ _ b hprepared' hends =>
        cases hprepared.symm.trans hprepared'
        have hendings : ∀ x ∈ trace.map Settlement.pair, ∀ s' ∈ trace', x.1 = s'.flight.unit →
            x.2 = s'.ending := by
          intro x hx s' hs' hunit
          obtain ⟨s, hs, rfl⟩ := List.mem_map.mp hx
          exact hsame s hs s' hs' hunit
        have hstop := running_again hlogs hsuffix hcompiled hproject hends hendings
        by_cases hpending : b.pending = []
        · obtain ⟨hreport, hannotated, hshape, hitems⟩ :=
            settled_again hlogs hsuffix hcompiled hproject hends hendings hpending
          obtain ⟨p, content, hstat⟩ := stat_of_loadManifest hproject.loads
          have hagain := Disk.saved_elsewhere hstat hproject.saves hshape hitems
          have hfinish := finish_ok_iff.mpr ⟨hstop, hpending, rfl, fields, hannotated, rfl⟩
          rw [← disk_finish g fields units b] at hagain hitems
          obtain ⟨hresult', hdisk'⟩ := save_ok_iff.mpr ⟨_, hfinish, hagain⟩
          refine .inr ⟨_, hresult', hreport, ?_⟩
          rw [hdisk']
          exact hitems
        · refine .inl ?_
          simp [RunResult.save, finish_endless hstop hpending]

/-- The first run rewrites the manifest: a number, an escape, a key that stands twice and the line
ends. One unit has a script, and the place of the other's script is taken by a directory. -/
theorem rewritten_project_runs_again :
    let text : Text :=
      "\x7b\"size\": 1.50, \"size\": 25e-1, \"name\": \"\\u00e9\",\r\n \"objects\": ["
        ++ "\x7b\"id\": \"a\", \"script\": \"[]\"\x7d, "
        ++ "\x7b\"id\": \"b\", \"script\": \"[]\"\x7d]\x7d"
    let d : Disk :=
      { items := [(["p"], .directory), (["p", "project.json"], .ofText text),
          (["p", "script"], .directory), (["p", "script", "b.js"], .directory)]
        work := "/p" }
    let worker := honestWorker fun _ => .all 0
    let run := runProject {} worker d "project.json"
    (run.disk.file? "project.json" ≠ d.file? "project.json" ∧
      (run.disk.file? "script/a.js").isSome = true ∧
      (run.disk.file? "script/b.error.log").isSome = true) ∧
    ∃ report, run.result = .ok report ∧
      (runProject {} worker run.disk "project.json").result = .ok report ∧
      (runProject {} worker run.disk "project.json").disk = run.disk := by
  intro text d worker run
  refine ⟨by decide +kernel, ?_⟩
  obtain ⟨report, h⟩ := exists_of_isOk (x := run.result) (by decide +kernel)
  obtain ⟨hresult, hdisk⟩ :=
    second_run_changes_nothing {} worker d "project.json" report rfl rfl rfl h
  exact ⟨report, h, hresult, hdisk⟩

end BlockScript
