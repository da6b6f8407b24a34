-- Units are on their own. What a run leaves for a unit follows from the unit,
-- its ending and the disk at the start, and nothing that becomes of the other
-- units changes it, as long as they all end and every text that is written has a
-- UTF-8 form.
import BlockScript.Proofs.Entries
import BlockScript.Proofs.Schedules

namespace BlockScript

/-! ## One unit of a batch -/

namespace Batch

/-- The bytes that a unit leaves under a path, of those that were there and those it writes. -/
def fileAfter (b : Batch) (suffix : Text) (u : WorkUnit) (e : Ending) (t : Text) :
    Option (List UInt8) :=
  match b.disk.place? t with
  | .ok p => (latest p (b.disk.item? p) ((b.deed suffix u e).writes b.disk)).bind Disk.contentOf?
  | .error _ => none

section Unit

variable {b : Batch} {suffix : Text} {ends : List (WorkUnit × Ending)}
  (hends : ∀ x ∈ ends, b.Handles suffix x.1) (hrunning : b.stop = none)
  (hstop : (b.settleAll ends).stop = none)

include hends hrunning hstop

/-- A batch that came to its end has done the deeds of its units, and left the same files to be
written. -/
theorem done_of_running :
    (∀ x ∈ ends, Disk.blocked? b.folder = none ∧ (b.deed suffix x.1 x.2).IsEncodable) ∧
      b.Alike (b.settleAll ends) ∧
      (b.settleAll ends).core = b.core.carryAll (fun x => b.deed suffix x.1 x.2) ends := by
  by_cases hne : ends = []
  · subst hne
    exact ⟨nofun, .refl b, rfl⟩
  · cases hblocked : Disk.blocked? b.folder with
    | some s =>
      rw [settleAll_blocked hrunning hblocked hends hne] at hstop
      cases hstop
    | none =>
      obtain ⟨hiff, hdone⟩ := settleAll_running hends hrunning hblocked
      exact ⟨fun x hx => ⟨rfl, hiff.mp hstop x hx⟩, hdone hstop⟩

variable {u : WorkUnit} {e : Ending} (hu : (u, e) ∈ ends)
  (honly : ∀ x ∈ ends, x.1.path = u.path → x = (u, e))

include hu honly

theorem outcome_settleAll :
    outcomeAt? u.path (b.settleAll ends).report.outcomes = some (b.deed suffix u e).outcome := by
  obtain ⟨-, -, hcore⟩ := done_of_running hends hrunning hstop
  rw [← report_core, hcore, outcome_carryAll]
  apply latest_eq_some
  · intro w hw hpath
    obtain ⟨x, hx, rfl⟩ := List.mem_map.mp hw
    rw [honly x hx hpath]
  · exact .inr (List.mem_map.mpr ⟨(u, e), hu, rfl⟩)

/-- At a place of the unit only the unit itself has written. -/
theorem item_settleAll {p : Place} (hplace : b.HasPlace suffix u p) :
    (b.settleAll ends).disk.item? p
      = latest p (b.disk.item? p) ((b.deed suffix u e).writes b.disk) := by
  obtain ⟨-, -, hcore⟩ := done_of_running hends hrunning hstop
  have hown : ∀ x ∈ ends, ∀ item, (p, item) ∈ (b.deed suffix x.1 x.2).writes b.disk →
      x = (u, e) := by
    intro x hx item hitem
    obtain ⟨w, hw, heq⟩ := List.mem_map.mp hitem
    cases heq
    exact honly x hx (path_eq_of_hasPlace (hends x hx) (hends _ hu)
      (hasPlace_deed (hends x hx) hw) hplace)
  rw [← disk_core, hcore, item_carryAll _ _ _ fun x hx w hw =>
    ne_nil_of_hasPlace (hends x hx) (hasPlace_deed (hends x hx) hw)]
  apply latest_eq_of_mem_iff
  · intro item
    rw [List.mem_flatMap]
    constructor
    · rintro ⟨x, hx, hitem⟩
      obtain rfl := hown x hx item hitem
      exact hitem
    · exact fun hitem => ⟨(u, e), hu, hitem⟩
  · intro item item' hitem hitem'
    obtain ⟨x, hx, hitem⟩ := List.mem_flatMap.mp hitem
    obtain ⟨y, hy, hitem'⟩ := List.mem_flatMap.mp hitem'
    obtain rfl := hown x hx item hitem
    obtain rfl := hown y hy item' hitem'
    have hwrite : (p, item) = (p, item') :=
      eq_of_mem_writes (hends _ hu) (hends _ hu) (fun _ => rfl) hitem hitem' rfl
    exact congrArg Prod.snd hwrite

theorem file_settleAll :
    ∀ file ∈ [u.path, u.logPath suffix],
      (b.settleAll ends).disk.file? (Path.joined b.home file)
        = b.fileAfter suffix u e (Path.joined b.home file) := by
  intro file hfile
  obtain ⟨-, halike, -⟩ := done_of_running hends hrunning hstop
  have hhandles := hends _ hu
  obtain ⟨base, hbase⟩ := hhandles.filed
  obtain ⟨name, hname, hpath⟩ : ∃ name, IsFileName name ∧
      Path.joined b.home file = b.folder ++ "/" ++ name := by
    rcases List.mem_cons.mp hfile with rfl | hfile
    · exact ⟨_, joined_path hbase b.home⟩
    · rw [List.mem_singleton.mp hfile]
      exact ⟨_, joined_logPath hbase b.home hhandles.suffix⟩
  rw [fileAfter, Disk.file_eq, hpath, halike.places name hname, ← hpath]
  cases hplace : b.disk.place? (Path.joined b.home file) with
  | error refusal => rfl
  | ok p =>
    have hown : b.HasPlace suffix u p := by
      rcases List.mem_cons.mp hfile with rfl | hfile
      · exact .inl hplace
      · rw [List.mem_singleton.mp hfile] at hplace
        exact .inr hplace
    simp only [item_settleAll hends hrunning hstop hu honly hown]

end Unit

end Batch

/-! ## Runs with a report -/

theorem disk_finish (g : Settings) (manifest : List (Text × Json)) (units : List WorkUnit)
    (b : Batch) : (finish g manifest units b).disk = b.disk := by
  unfold finish
  simp only
  split <;> rfl

theorem finish_ok_iff {g : Settings} {manifest : List (Text × Json)} {units : List WorkUnit}
    {b : Batch} {report : Report} {marked : Json} :
    (finish g manifest units b).result = .ok (report, marked) ↔
      b.stop = none ∧ b.pending = [] ∧ report = b.report ∧
        ∃ fields, annotate g manifest units b.report = .ok fields ∧ marked = .obj fields := by
  unfold finish
  cases b.stop with
  | some s => simp
  | none =>
    cases b.pending with
    | cons f rest => simp
    | nil =>
      cases annotate g manifest units b.report with
      | error s => simp [Except.mapError]
      | ok fields =>
        constructor
        · intro h
          cases h
          exact ⟨rfl, rfl, rfl, fields, rfl, rfl⟩
        · rintro ⟨-, -, rfl, fields', hfields, rfl⟩
          cases hfields
          rfl

theorem finish_endless {b : Batch} (hstop : b.stop = none) (hpending : b.pending ≠ [])
    (g : Settings) (manifest : List (Text × Json)) (units : List WorkUnit) :
    (finish g manifest units b).result = .error .endless := by
  simp [finish, hstop, hpending]

/-- A run that gave a report: each unit has ended, and the batch is what settling them in the order
of their ends comes to. -/
structure Compiled (g : Settings) (d : Disk) (home : Text) (manifest : List (Text × Json))
    (disk : Disk) (units : List WorkUnit) (ends : List (WorkUnit × Ending))
    (marked : List (Text × Json)) (run : RunResult (Report × Json)) : Prop where
  made : d.makeDirectories (Path.joined home g.outputDir) = (disk, .ok ())
  collected : collectUnits g manifest = .ok units
  waits : units ≠ [] → Batch.canWait g.unitTimeout = true
  ended : (ends.map Prod.fst).Perm units
  running : ((dispatched g home disk units).settleAll ends).stop = none
  leaves : run.disk = ((dispatched g home disk units).settleAll ends).disk
  annotated : annotate g manifest units ((dispatched g home disk units).settleAll ends).report
    = .ok marked
  result : run.result
    = .ok (((dispatched g home disk units).settleAll ends).report, .obj marked)

theorem compiled_finish {g : Settings} {d disk : Disk} {home : Text} {manifest : Json}
    {fields : List (Text × Json)} {units : List WorkUnit} {ends : List (WorkUnit × Ending)}
    {b : Batch} (hprepared : prepare g d home manifest = (disk, .ok (fields, units)))
    (hwaits : units ≠ [] → Batch.canWait g.unitTimeout = true)
    (hended : b.pending = [] → (ends.map Prod.fst).Perm units)
    (hcore : b.core = ((dispatched g home disk units).settleAll ends).core)
    {report : Report} {marked : Json}
    (h : (finish g fields units b).result = .ok (report, marked)) :
    manifest = .obj fields ∧ ∃ fields', marked = .obj fields' ∧
      Compiled g d home fields disk units ends fields' (finish g fields units b) := by
  obtain ⟨hmade, hmanifest, hunits⟩ := prepare_ok_iff.mp hprepared
  obtain ⟨hstop, hpending, hreport, fields', hfields, hmarked⟩ := finish_ok_iff.mp h
  have hsame : b.report = ((dispatched g home disk units).settleAll ends).report := by
    rw [← Batch.report_core, hcore, Batch.report_core]
  refine ⟨hmanifest, fields', hmarked, hmade, hunits, hwaits, hended hpending, ?_, ?_, ?_, ?_⟩
  · rw [← Batch.stop_core, ← hcore, Batch.stop_core, hstop]
  · rw [disk_finish, ← Batch.disk_core, hcore, Batch.disk_core]
  · rw [← hsame, hfields]
  · rw [h, hmarked, hreport, hsame]

/-- A run in the order of the units that gave a report. -/
theorem compiled_of_transpile {g : Settings} {worker : Worker} {d : Disk} {home : Text}
    {manifest : Json} {report : Report} {marked : Json}
    (h : (transpile g worker d home manifest).result = .ok (report, marked)) :
    ∃ fields, manifest = .obj fields ∧ ∃ disk units fields', marked = .obj fields' ∧
      Compiled g d home fields disk units (g.endings worker units) fields'
        (transpile g worker d home manifest) := by
  rcases hprepared : prepare g d home manifest with ⟨disk, e | ⟨fields, units⟩⟩
  · rw [transpile, hprepared] at h
    cases h
  · obtain ⟨-, -, hunits⟩ := prepare_ok_iff.mp hprepared
    rw [transpile_eq hprepared] at h ⊢
    have hwaits : units ≠ [] → Batch.canWait g.unitTimeout = true := by
      intro hne
      by_contra hwait
      exact Batch.stop_work (b := begun g home disk units) rfl rfl (Bool.eq_false_iff.mpr hwait)
        worker hne (finish_ok_iff.mp h).1
    obtain ⟨hcore, hpending⟩ := Batch.work_settles (b := begun g home disk units) rfl rfl hwaits
      worker (nodup_paths hunits).1
    have hended : Batch.idle g worker units = [] →
        ((g.endings worker units).map Prod.fst).Perm units := by
      intro hidle
      have hall : ∀ u ∈ units, (g.ending? worker u).isSome = true := by
        intro u hu
        by_contra hnone
        have hmem : ({ unit := u, deadline := none } : Flight) ∈ Batch.idle g worker units :=
          List.mem_map.mpr ⟨u, List.mem_filter.mpr ⟨hu, by simpa using hnone⟩, rfl⟩
        rw [hidle] at hmem
        cases hmem
      have hfst : (g.endings worker units).map Prod.fst = units := by
        rw [Settings.endings, List.map_filterMap]
        have hsome : ∀ u ∈ units, ((g.ending? worker u).map fun e => (u, e)).map Prod.fst
            = some u := by
          intro u hu
          obtain ⟨e, he⟩ := Option.isSome_iff_exists.mp (hall u hu)
          rw [he]
          rfl
        rw [List.filterMap_congr hsome, List.filterMap_some]
      rw [hfst]
    obtain ⟨hmanifest, fields', hmarked, hcompiled⟩ := compiled_finish hprepared hwaits
      (fun hnone => hended (hpending.symm.trans hnone)) (hcore.trans (core_begun _ _ _ _ _)) h
    exact ⟨fields, hmanifest, disk, units, fields', hmarked, hcompiled⟩

/-- A run on any schedule that gave a report. -/
theorem compiled_of_compiles {g : Settings} {d : Disk} {home : Text} {manifest : Json}
    {trace : List Settlement} {run : RunResult (Report × Json)}
    (hrun : Compiles g d home manifest trace run) {report : Report} {marked : Json}
    (h : run.result = .ok (report, marked)) :
    ∃ fields, manifest = .obj fields ∧ ∃ disk units fields', marked = .obj fields' ∧
      Compiled g d home fields disk units (trace.map Settlement.pair) fields' run := by
  cases hrun with
  | unprepared hprepared => cases h
  | ended hprepared hends =>
    obtain ⟨-, -, hunits⟩ := prepare_ok_iff.mp hprepared
    obtain ⟨hwaits, hparted, hcore, -⟩ := hends.settles hunits (finish_ok_iff.mp h).1
    have hfst : (trace.map Settlement.pair).map Prod.fst = trace.map (·.flight.unit) := by
      rw [List.map_map]
      rfl
    obtain ⟨hmanifest, fields', hmarked, hcompiled⟩ := compiled_finish hprepared hwaits
      (fun hnone => by rw [hnone] at hparted; rw [hfst]; exact hparted) hcore h
    exact ⟨_, hmanifest, _, _, fields', hmarked, hcompiled⟩

/-! ## One unit of a run -/

namespace Compiled

section Unit

variable {g : Settings} {suffix : Text} (hlogs : g.errorLogSuffix = .str suffix)
  (hsuffix : IsLogSuffix suffix) {d disk : Disk} {home : Text} {manifest : List (Text × Json)}
  {units : List WorkUnit} {ends : List (WorkUnit × Ending)} {marked : List (Text × Json)}
  {run : RunResult (Report × Json)} (h : Compiled g d home manifest disk units ends marked run)

include h

theorem mem_units {x : WorkUnit × Ending} (hx : x ∈ ends) : x.1 ∈ units :=
  h.ended.mem_iff.mp (List.mem_map_of_mem hx)

theorem exists_ending {u : WorkUnit} (hu : u ∈ units) : ∃ e, (u, e) ∈ ends := by
  obtain ⟨x, hx, rfl⟩ := List.mem_map.mp (h.ended.mem_iff.mpr hu)
  exact ⟨x.2, hx⟩

theorem ending_of_comesFrom {u : WorkUnit} {s : Shelf} {i : Nat}
    (hu : u.ComesFrom g manifest s i) : u ∈ units ∧ ∃ e, (u, e) ∈ ends := by
  obtain ⟨units', hunits, hmem⟩ := hu
  cases h.collected.symm.trans hunits
  have hunit : u ∈ units := (List.of_mem_zip hmem).1
  exact ⟨hunit, h.exists_ending hunit⟩

theorem nodup : (ends.map fun x => x.1.path).Nodup := by
  have hpaths := (h.ended.map WorkUnit.path).nodup_iff.mpr (nodup_paths h.collected).1
  rw [List.map_map] at hpaths
  exact hpaths

/-- A unit has one ending. -/
theorem only {x y : WorkUnit × Ending} (hx : x ∈ ends) (hy : y ∈ ends)
    (hpath : x.1.path = y.1.path) : x = y :=
  List.inj_on_of_nodup_map h.nodup hx hy hpath

include hlogs hsuffix

theorem handles : ∀ x ∈ ends, (dispatched g home disk units).Handles suffix x.1 :=
  fun x hx => Batch.handles_of_collect hlogs hsuffix h.collected x.1 (h.mem_units hx)

/-- What a run leaves for a unit follows from the unit, its ending, its entry and the disk. -/
theorem left_for_unit {u : WorkUnit} {s : Shelf} {i : Nat} (hu : u.ComesFrom g manifest s i)
    {e : Ending} (he : (u, e) ∈ ends) :
    let b : Batch := { settings := g, home, disk }
    Disk.blocked? b.folder = none ∧ (b.deed suffix u e).IsEncodable ∧
    outcomeAt? u.path ((dispatched g home disk units).settleAll ends).report.outcomes
      = some (b.deed suffix u e).outcome ∧
    (∀ file ∈ [u.path, u.logPath suffix], run.disk.file? (Path.joined home file)
      = b.fileAfter suffix u e (Path.joined home file)) ∧
    ∀ entry, (s.entries manifest)[i]? = some entry → (s.entries marked)[i]?
      = some (markedEntry g.markKey entry (b.deed suffix u e).outcome.mark?) := by
  intro b
  obtain ⟨units', hunits, hmem⟩ := hu
  cases h.collected.symm.trans hunits
  have hends := h.handles hlogs hsuffix
  have honly : ∀ x ∈ ends, x.1.path = u.path → x = (u, e) := fun x hx hpath => h.only hx he hpath
  obtain ⟨hdone, -⟩ := Batch.done_of_running hends rfl h.running
  have houtcome := Batch.outcome_settleAll hends rfl h.running he honly
  refine ⟨(hdone _ he).1, (hdone _ he).2, houtcome, ?_, ?_⟩
  · intro file hfile
    rw [h.leaves]
    exact Batch.file_settleAll hends rfl h.running he honly file hfile
  · intro entry hentry
    rw [entry_annotate hunits h.annotated hmem hentry, Report.mark?, houtcome]
    rfl

end Unit

end Compiled

/-! ## Other units -/

theorem annotate_ok {g : Settings} (hkey : (fieldKey g.scriptField).isOk = true)
    (manifest : List (Text × Json)) (units : List WorkUnit) (r : Report) :
    ∃ fields, annotate g manifest units r = .ok fields := by
  unfold annotate
  simp only
  split
  · exact ⟨_, rfl⟩
  · obtain ⟨key, hkey⟩ := exists_of_isOk hkey
    rw [hkey]
    exact ⟨_, rfl⟩

/-- Work on units that the clock does not stop is not stopped at all if every text that is written
for them has a UTF-8 form. -/
theorem running_of_encodable {g : Settings} {suffix : Text}
    (hlogs : g.errorLogSuffix = .str suffix) (hsuffix : IsLogSuffix suffix) {home : Text}
    {disk : Disk} {manifest : List (Text × Json)} {units : List WorkUnit}
    {trace : List Settlement} {b : Batch} (hunits : collectUnits g manifest = .ok units)
    (hends : (begun g home disk units).Ends units trace b)
    (hwait : units ≠ [] → Batch.canWait g.unitTimeout = true)
    (hblocked : units ≠ [] → Disk.blocked? (Path.folder home g.outputDir) = none)
    (htexts : ∀ s ∈ trace, s.flight.unit ∈ units →
      ((dispatched g home disk units).deed suffix s.flight.unit s.ending).IsEncodable) :
    b.stop = none := by
  by_contra hstop
  obtain ⟨before, hbefore, hmem, hsettled⟩ := hends.stopped_by_unit hunits hwait hstop
  have hhandles : ∀ x ∈ before.map Settlement.pair,
      (dispatched g home disk units).Handles suffix x.1 := by
    intro x hx
    obtain ⟨s, hs, rfl⟩ := List.mem_map.mp hx
    exact Batch.handles_of_collect hlogs hsuffix hunits _ (hmem s hs)
  cases before with
  | nil => exact hsettled rfl
  | cons first rest =>
    have hne : units ≠ [] := List.ne_nil_of_mem (hmem first List.mem_cons_self)
    refine hsettled ((Batch.settleAll_running hhandles rfl (hblocked hne)).1.mpr ?_)
    intro x hx
    obtain ⟨s, hs, rfl⟩ := List.mem_map.mp hx
    exact htexts s (hbefore.subset hs) (hmem s hs)

end BlockScript
