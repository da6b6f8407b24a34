-- Runs on every schedule. Whenever the units end and whatever the clock shows, a
-- run comes to settling its units one after the other as they end, and awaiting
-- them in the order in which they were dispatched is one such run.
import BlockScript.Proofs.Interleaving

namespace BlockScript

/-! ## What a schedule comes to -/

namespace Batch

theorem core_dispatch {b : Batch} {limit now : Nat} {u : WorkUnit}
    (h : (b.dispatch limit now u).stop = none) :
    outOfRange b.settings.unitTimeout = false ∧
      (b.dispatch limit now u).core = (b.started 1).core := by
  unfold dispatch at h ⊢
  by_cases hrunning : b.stop.isSome = true
  · rw [if_pos hrunning] at h
    simp [h] at hrunning
  · rw [if_neg hrunning] at h ⊢
    simp only [say] at h ⊢
    cases htimeout : b.settings.unitTimeout with
    | null => exact ⟨rfl, rfl⟩
    | _ =>
      simp only [htimeout] at h ⊢
      split at h
      · cases h
      · rename_i hrange
        rw [if_neg hrange]
        exact ⟨Bool.eq_false_iff.mpr hrange, rfl⟩

theorem range_of_stop_dispatch {b : Batch} {limit now : Nat} {u : WorkUnit}
    (hrunning : b.stop = none) (h : (b.dispatch limit now u).stop ≠ none) :
    outOfRange b.settings.unitTimeout = true := by
  by_contra hrange
  refine h ?_
  unfold dispatch
  rw [if_neg (by simp [hrunning])]
  simp only [say]
  cases htimeout : b.settings.unitTimeout with
  | null => exact hrunning
  | _ =>
    rw [htimeout] at hrange
    simp only [hrange]
    exact hrunning

theorem started_answer {b : Batch} {f : Flight} (hnodup : (b.pending.map (·.unit.path)).Nodup)
    (hf : f ∈ b.pending) {e : Ending} (hstop : (b.answer f.unit.path e).stop = none) :
    (b.answer f.unit.path e).report.started = b.report.started := by
  obtain ⟨rest, disk, file, message, -, hanswer, -⟩ := answer_recorded hnodup hf hstop
  rw [hanswer]
  rfl

end Batch

namespace Moment

/-- A moment of a run that began with a batch, beside what settling the same units comes to: just
that, as long as the run is not stopped. A run is stopped by one of its settlements, or because the
clock cannot keep its time limit. -/
inductive Comes (g : Settings) (units : List WorkUnit) (b : Batch) (trace : List Settlement)
    (m : Moment) : Prop
  | running {gone : List WorkUnit} {before : List Text} : m.Sound g units gone before trace →
      m.batch.stop = none → (gone ≠ [] → Batch.outOfRange g.unitTimeout = false) →
      m.batch.core = ((b.started gone.length).settleAll (trace.map Settlement.pair)).core →
      Comes g units b trace m
  | stopped {before : List Settlement} : m.batch.stop ≠ none → before <+: trace →
      (∀ s ∈ before, s.flight.unit ∈ units) →
      ((b.started units.length).settleAll (before.map Settlement.pair)).stop ≠ none →
      Comes g units b trace m
  | clocked : m.batch.stop ≠ none → units ≠ [] → Batch.canWait g.unitTimeout = false →
      Comes g units b trace m

section Step

variable {g : Settings} {units gone : List WorkUnit} {b₀ : Batch} {before : List Text}
  {trace : List Settlement} {b : Batch} {clock : Nat} {stage : Stage}

/-- The units that were settled are units of the run. -/
theorem Sound.mem_units {m : Moment} (h : Sound g units gone before trace m) :
    ∀ s ∈ trace, s.flight.unit ∈ units := by
  intro s hs
  have hgone : s.flight.unit ∈ gone :=
    h.parted.mem_iff.mp (List.mem_append_right _ (List.mem_map_of_mem hs))
  rw [h.sent]
  exact List.mem_append_left _ hgone

theorem Sound.mem_of_pending (h : Sound g units gone before trace ⟨b, clock, stage⟩) {f : Flight}
    (hf : f ∈ b.pending) : f.unit ∈ units := by
  have hgone : f.unit ∈ gone :=
    h.parted.mem_iff.mp (List.mem_append_left _ (List.mem_map_of_mem hf))
  rw [h.sent]
  exact List.mem_append_left _ hgone

/-- A unit that is settled, and what that comes to, whether it stops the run or not. -/
theorem Comes.answer (hnodup : (units.map WorkUnit.path).Nodup)
    (h : Sound g units gone before trace ⟨b, clock, stage⟩) (hleft : stage.left = [])
    (hrange : gone ≠ [] → Batch.outOfRange g.unitTimeout = false)
    (hcore : b.core = ((b₀.started gone.length).settleAll (trace.map Settlement.pair)).core)
    {f : Flight} (hf : f ∈ b.pending) {e : Ending} {next : Stage}
    (hsound : (b.answer f.unit.path e).stop = none → ∃ gone', Sound g units gone' before
      (trace ++ [⟨f, e, clock⟩]) ⟨b.answer f.unit.path e, clock, next⟩) :
    Comes g units b₀ (trace ++ [⟨f, e, clock⟩]) ⟨b.answer f.unit.path e, clock, next⟩ := by
  have hpending := (List.nodup_append.mp (h.nodup hnodup)).1
  have hsettled : (b.answer f.unit.path e).core
      = ((b₀.started gone.length).settleAll
          (List.map Settlement.pair (trace ++ [⟨f, e, clock⟩]))).core := by
    rw [Batch.core_answer hpending hf, List.map_append, Batch.settleAll_append, Batch.core_settle,
      hcore, ← Batch.core_settle]
    rfl
  cases hstop : (b.answer f.unit.path e).stop with
  | none =>
    obtain ⟨gone', hsound⟩ := hsound hstop
    have hlength : gone'.length = gone.length := by
      rw [← hsound.started, ← h.started]
      exact Batch.started_answer hpending hf hstop
    refine .running hsound hstop (fun hne => hrange ?_) (hlength ▸ hsettled)
    rw [← List.length_pos_iff] at hne ⊢
    omega
  | some s =>
    have hgone : units = gone := by
      have hsent := h.sent
      simpa [hleft] using hsent
    have hsome : (b.answer f.unit.path e).stop ≠ none := by simp [hstop]
    refine .stopped hsome List.prefix_rfl ?_ ?_
    · intro s hs
      rcases List.mem_append.mp hs with hs | hs
      · exact h.mem_units s hs
      · rw [List.mem_singleton.mp hs]
        exact h.mem_of_pending hf
    · rw [hgone, ← Batch.stop_core, ← hsettled]
      exact hsome

/-- What one step comes to. -/
theorem Comes.step {limit : Nat} {m n : Moment} {more : List Settlement}
    (h : Comes g units b₀ trace m) (hnodup : (units.map WorkUnit.path).Nodup)
    (hstep : Step limit m more n) : Comes g units b₀ (trace ++ more) n := by
  cases h with
  | stopped hstop hbefore hunits hsettled =>
    exact .stopped (fun h => hstop (stop_of_step hstep h)) (hbefore.trans (List.prefix_append _ _))
      hunits hsettled
  | clocked hstop hne hwait => exact .clocked (fun h => hstop (stop_of_step hstep h)) hne hwait
  | @running gone before hsound hrunning hrange hcore =>
    have hnext := hsound.step hnodup hstep
    cases hstep with
    | @dispatch b clock now u left =>
      have hsettings : b.settings = g := hsound.settings
      have htrace : trace = [] := hsound.unsettled (by simp [Stage.left])
      subst htrace
      cases hstop : (b.dispatch limit now u).stop with
      | none =>
        obtain ⟨hrange', hdispatched⟩ := Batch.core_dispatch hstop
        rw [hsettings] at hrange'
        refine .running (hsound.dispatch hstop) hstop (fun _ => hrange') ?_
        have hcore : b.core = (b₀.started gone.length).core := hcore
        have hstarted : (b.started 1).core = (b.core.started 1).core := rfl
        rw [hdispatched, hstarted, hcore, List.length_append]
        simp [Batch.core, Batch.started, Batch.settleAll, Nat.add_assoc]
      | some s =>
        have hsome : (b.dispatch limit now u).stop ≠ none := by simp [hstop]
        have hrange' := Batch.range_of_stop_dispatch hrunning hsome
        rw [hsettings] at hrange'
        have hne : units ≠ [] := by
          rw [hsound.sent]
          simp [Stage.left]
        exact .clocked hsome hne (by simp [Batch.canWait, hrange'])
    | @overlong b clock s _ hpending hlong =>
      have hsettings : b.settings = g := hsound.settings
      rw [hsettings] at hlong
      obtain ⟨f, hf⟩ := List.exists_mem_of_ne_nil _ hpending
      exact .clocked (by simp) (List.ne_nil_of_mem (hsound.mem_of_pending hf))
        (by simp [Batch.canWait, hlong])
    | @collect b clock f e rest =>
      have hf : f ∈ b.pending := hsound.fits.1.subset List.mem_cons_self
      exact .answer hnodup hsound rfl hrange hcore hf hnext
    | @expire b clock f rest hup =>
      have hsub : (f :: rest).Subperm b.pending := hsound.fits
      exact .answer hnodup hsound rfl hrange hcore (hsub.subset List.mem_cons_self) hnext
    | _ =>
      obtain ⟨gone', hsound'⟩ := hnext hrunning
      have hlength : gone'.length = gone.length := hsound'.started.symm.trans hsound.started
      refine .running hsound' hrunning (fun hne => hrange ?_) ?_
      · rw [← List.length_pos_iff] at hne ⊢
        omega
      · rw [List.append_nil, hlength]
        exact hcore

/-- What a whole run comes to, by induction on its steps. -/
theorem Comes.run {limit : Nat} {m n : Moment} (h : Comes g units b₀ [] m)
    (hnodup : (units.map WorkUnit.path).Nodup) (hrun : Run limit m trace n) :
    Comes g units b₀ trace n := by
  induction hrun with
  | start => exact h
  | step _ hstep ih => exact ih.step hnodup hstep

end Step

theorem comes_begun (g : Settings) (home : Text) (disk : Disk) (units : List WorkUnit)
    (clock : Nat) :
    Comes g units (begun g home disk units) []
      ⟨begun g home disk units, clock, .dispatching units⟩ :=
  .running (sound_begun g home disk units clock) rfl (absurd rfl) rfl

/-- What each step of a run keeps, a whole run keeps. -/
theorem keeps_run {units : List WorkUnit} {I : Batch → Prop} (hI : Batch.IsKept units I)
    {limit : Nat} {m n : Moment} {trace : List Settlement} (hm : I m.batch)
    (hleft : m.stage.left ⊆ units) (hrun : Run limit m trace n) :
    I n.batch ∧ n.stage.left ⊆ units := by
  induction hrun with
  | start => exact ⟨hm, hleft⟩
  | step _ hstep ih =>
    obtain ⟨hb, hleft⟩ := ih
    cases hstep with
    | dispatch =>
      obtain ⟨hu, hrest⟩ := List.cons_subset.mp hleft
      exact ⟨hI.dispatch _ hb _ _ _ hu, hrest⟩
    | overlong _ _ hlong => exact ⟨hI.clock _ hb _ hlong, hleft⟩
    | collect => exact ⟨hI.answer _ hb _ _, hleft⟩
    | expire => exact ⟨hI.answer _ hb _ _, hleft⟩
    | _ => exact ⟨hb, hleft⟩

end Moment

/-! ## Ends -/

/-- What working on units can end with, on any schedule, and the settlements on the way. It ends
when it is stopped or when no unit is pending any more; and where there is no time limit, a pending
unit may never end. Units whose time limit the clock cannot keep are not waited for. -/
inductive Batch.Ends (b : Batch) (units : List WorkUnit) : List Settlement → Batch → Prop
  | stopped {limit clock : Nat} {trace : List Settlement} {m : Moment} :
      Moment.Run limit ⟨b, clock, .dispatching units⟩ trace m → m.batch.stop ≠ none →
      Ends b units trace m.batch
  | waited {limit clock : Nat} {trace : List Settlement} {m : Moment} :
      Moment.Run limit ⟨b, clock, .dispatching units⟩ trace m → m.batch.stop = none →
      m.stage = .waiting → (units ≠ [] → waitStop? b.settings.unitTimeout = none) →
      (m.batch.pending = [] ∨ b.settings.unitTimeout = .null) → Ends b units trace m.batch

/-- The batch of a run whose units are dispatched. -/
def dispatched (g : Settings) (home : Text) (disk : Disk) (units : List WorkUnit) : Batch :=
  { settings := g, home, disk, report := { total := units.length, started := units.length } }

theorem core_begun (g : Settings) (home : Text) (disk : Disk) (units : List WorkUnit)
    (ends : List (WorkUnit × Ending)) :
    (((begun g home disk units).started units.length).settleAll ends).core
      = ((dispatched g home disk units).settleAll ends).core := by
  apply Batch.core_settleAll
  simp [Batch.core, Batch.started, begun, dispatched, Batch.say]

namespace Batch

section Ends

variable {g : Settings} {home : Text} {disk : Disk} {manifest : List (Text × Json)}
  {units : List WorkUnit} {trace : List Settlement} {b : Batch}
  (hunits : collectUnits g manifest = .ok units)
  (hends : (begun g home disk units).Ends units trace b)

include hends

theorem Ends.run : ∃ limit clock m, m.batch = b ∧
    Moment.Run limit ⟨begun g home disk units, clock, .dispatching units⟩ trace m := by
  cases hends with
  | stopped hrun _ => exact ⟨_, _, _, rfl, hrun⟩
  | waited hrun _ _ _ _ => exact ⟨_, _, _, rfl, hrun⟩

theorem Ends.kept {I : Batch → Prop} (hI : IsKept units I) (h : I (begun g home disk units)) :
    I b := by
  obtain ⟨limit, clock, m, rfl, hrun⟩ := hends.run
  exact (Moment.keeps_run hI (m := ⟨_, clock, .dispatching units⟩) h (List.Subset.refl units)
    hrun).1

include hunits

/-- Work that is not stopped has settled the units that are not pending. -/
theorem Ends.settles (hstop : b.stop = none) :
    (units ≠ [] → canWait g.unitTimeout = true) ∧
    (b.pending.map (·.unit) ++ trace.map (·.flight.unit)).Perm units ∧
    b.core = ((dispatched g home disk units).settleAll (trace.map Settlement.pair)).core ∧
    (b.pending = [] ∨ g.unitTimeout = .null) := by
  cases hends with
  | stopped _ h => exact absurd hstop h
  | waited hrun _ hstage hwait hpending =>
    cases (Moment.comes_begun g home disk units _).run (nodup_paths hunits).1 hrun with
    | stopped h => exact absurd hstop h
    | clocked h => exact absurd hstop h
    | @running gone before hsound _ hrange hcore =>
      have hgone : units = gone := by
        have hsent := hsound.sent
        simpa [hstage, Stage.left] using hsent
      subst hgone
      refine ⟨fun hne => ?_, hsound.parted, hcore.trans (core_begun g home disk units _), hpending⟩
      have hlong : waitStop? g.unitTimeout = none := hwait hne
      simp [canWait, hrange hne, hlong]

/-- Work that is stopped, though the clock can keep its time limit, was stopped by a unit. -/
theorem Ends.stopped_by_unit (hwait : units ≠ [] → canWait g.unitTimeout = true)
    (hstop : b.stop ≠ none) :
    ∃ before, before <+: trace ∧ (∀ s ∈ before, s.flight.unit ∈ units) ∧
      ((dispatched g home disk units).settleAll (before.map Settlement.pair)).stop ≠ none := by
  obtain ⟨limit, clock, m, rfl, hrun⟩ := hends.run
  cases (Moment.comes_begun g home disk units _).run (nodup_paths hunits).1 hrun with
  | running _ h => exact absurd h hstop
  | clocked _ hne h => rw [hwait hne] at h; cases h
  | @stopped before _ hbefore hmem hsettled =>
    refine ⟨before, hbefore, hmem, ?_⟩
    rw [← stop_core, ← core_begun, stop_core]
    exact hsettled

end Ends

theorem mem_idle {g : Settings} {worker : Worker} {units : List WorkUnit} {f : Flight}
    (h : f ∈ idle g worker units) : g.ending? worker f.unit = none := by
  obtain ⟨u, hu, rfl⟩ := List.mem_map.mp h
  simpa using (List.mem_filter.mp hu).2

end Batch

/-- A unit never ends only if its worker never answers and there is no time limit. -/
theorem Settings.silent_of_ending_none {g : Settings} {worker : Worker} {u : WorkUnit}
    (h : g.ending? worker u = none) : worker u = none ∧ g.unitTimeout = .null := by
  unfold Settings.ending? at h
  split at h
  · cases h
  · rename_i hworker htimeout
    exact ⟨hworker, htimeout⟩
  · cases h

theorem mem_endings {g : Settings} {worker : Worker} {units : List WorkUnit}
    {x : WorkUnit × Ending} :
    x ∈ g.endings worker units ↔ x.1 ∈ units ∧ g.ending? worker x.1 = some x.2 := by
  obtain ⟨u, e⟩ := x
  simp [Settings.endings]

/-- Work in the order of the units ends like that, and settles each unit as its worker has it. -/
theorem ends_work {g : Settings} {manifest : List (Text × Json)} {units : List WorkUnit}
    (hunits : collectUnits g manifest = .ok units) (home : Text) (disk : Disk) {worker : Worker}
    (hworker : ∀ u, worker u ≠ some .timedOut) :
    ∃ trace, (begun g home disk units).Ends units trace
        ((begun g home disk units).work worker units) ∧
      ∀ s ∈ trace, g.ending? worker s.flight.unit = some s.ending := by
  have hnodup := (nodup_paths hunits).1
  by_cases hwait : units ≠ [] → Batch.canWait g.unitTimeout = true
  · obtain ⟨trace, clock, hpairs, hrun⟩ := Moment.run_work 0 hworker (b := begun g home disk units)
      rfl rfl hwait hnodup
    refine ⟨trace, ?_, ?_⟩
    · cases hstop : ((begun g home disk units).work worker units).stop with
      | some s => exact .stopped hrun (by simp [hstop])
      | none =>
        refine .waited hrun hstop rfl (fun hne => ?_) ?_
        · have hcan := hwait hne
          simp only [Batch.canWait, Bool.and_eq_true, Option.isNone_iff_eq_none] at hcan
          exact hcan.2
        · have hpending : ((begun g home disk units).work worker units).pending = _ :=
            (Batch.work_settles (b := begun g home disk units) rfl rfl hwait worker hnodup).2
          cases hidle : Batch.idle g worker units with
          | nil => exact .inl (hpending.trans hidle)
          | cons f rest =>
            have hf : f ∈ Batch.idle g worker units := hidle ▸ List.mem_cons_self
            exact .inr (Settings.silent_of_ending_none (Batch.mem_idle hf)).2
    · intro s hs
      exact (mem_endings.mp (hpairs ▸ List.mem_map_of_mem hs)).2
  · -- the clock cannot keep the time limit, and no unit is settled
    rw [Classical.not_imp] at hwait
    obtain ⟨hne, hwait⟩ := hwait
    obtain ⟨clock, hdispatch⟩ := Moment.run_dispatchAll limitTicks 0 (begun g home disk units) 0
      units
    refine ⟨[], ?_, by simp⟩
    rcases Batch.work_stopped (b := begun g home disk units) rfl rfl (Bool.eq_false_iff.mpr hwait)
      worker hne with ⟨hstop, hwork⟩ | ⟨s, hrunning, hpending, hlong, hwork⟩
    · rw [hwork]
      exact .stopped hdispatch hstop
    · rw [hwork]
      exact .stopped (hdispatch.step (.overlong hrunning hpending hlong)) (by simp)

/-! ## Runs -/

/-- What compiling the units of a manifest can leave, on any schedule, and the settlements on the
way. -/
inductive Compiles (g : Settings) (d : Disk) (home : Text) (manifest : Json) :
    List Settlement → RunResult (Report × Json) → Prop
  | unprepared {disk : Disk} {e : RunError} : prepare g d home manifest = (disk, .error e) →
      Compiles g d home manifest [] { disk, log := [], result := .error e }
  | ended {disk : Disk} {fields : List (Text × Json)} {units : List WorkUnit}
      {trace : List Settlement} {b : Batch} :
      prepare g d home manifest = (disk, .ok (fields, units)) →
      (begun g home disk units).Ends units trace b →
      Compiles g d home manifest trace (finish g fields units b)

/-- What a run over the project of a manifest on disk can leave, with the settlements on the way and
the manifest that is to be saved, if the run gets so far. -/
inductive RunsProject (g : Settings) (d : Disk) (path : Text) :
    List Settlement → Option Json → RunResult Report → Prop
  | unread {e : ManifestError} : d.loadManifest path = .error e →
      RunsProject g d path [] none { disk := d, log := [], result := .error (.manifest e) }
  | compiled {fields : List (Text × Json)} {trace : List Settlement}
      {run : RunResult (Report × Json)} : d.loadManifest path = .ok fields →
      Compiles g d (Path.directoryOf d.work path) (.obj fields) trace run →
      RunsProject g d path trace (run.result.toOption.map Prod.snd) (run.save path)

/-- Units are prepared if the output directory can be made and the manifest is an object whose
units can be collected. -/
theorem prepare_ok_iff {g : Settings} {d disk : Disk} {home : Text} {manifest : Json}
    {fields : List (Text × Json)} {units : List WorkUnit} :
    prepare g d home manifest = (disk, .ok (fields, units)) ↔
      d.makeDirectories (Path.joined home g.outputDir) = (disk, .ok ()) ∧
        manifest = .obj fields ∧ collectUnits g fields = .ok units := by
  unfold prepare
  rcases d.makeDirectories (Path.joined home g.outputDir) with ⟨made, r⟩
  cases r with
  | error e => cases hstop : e.stop? <;> simp [hstop]
  | ok a =>
    cases manifest with
    | obj own =>
      cases hunits : collectUnits g own with
      | error e =>
        simp only [hunits, Prod.mk.injEq, reduceCtorEq, and_false, false_iff]
        rintro ⟨-, heq, hfields⟩
        cases heq
        rw [hunits] at hfields
        cases hfields
      | ok found =>
        simp only [hunits, Prod.mk.injEq, Except.ok.injEq, and_true, Json.obj.injEq]
        constructor
        · rintro ⟨rfl, rfl, rfl⟩
          exact ⟨rfl, rfl, hunits⟩
        · rintro ⟨rfl, rfl, hfields⟩
          rw [hunits] at hfields
          cases hfields
          exact ⟨rfl, rfl, rfl⟩
    | _ => simp

theorem transpile_eq {g : Settings} {d disk : Disk} {home : Text} {manifest : Json}
    {fields : List (Text × Json)} {units : List WorkUnit}
    (h : prepare g d home manifest = (disk, .ok (fields, units))) (worker : Worker) :
    transpile g worker d home manifest =
      finish g fields units ((begun g home disk units).work worker units) := by
  rw [transpile, h]

/-- Compiling the units in their order is such a run. -/
theorem compiles_transpile (g : Settings) {worker : Worker}
    (hworker : ∀ u, worker u ≠ some .timedOut) (d : Disk) (home : Text) (manifest : Json) :
    ∃ trace, Compiles g d home manifest trace (transpile g worker d home manifest) ∧
      ∀ s ∈ trace, g.ending? worker s.flight.unit = some s.ending := by
  rcases hprepared : prepare g d home manifest with ⟨disk, e | ⟨fields, units⟩⟩
  · refine ⟨[], ?_, nofun⟩
    rw [transpile, hprepared]
    exact .unprepared hprepared
  · obtain ⟨-, -, hunits⟩ := prepare_ok_iff.mp hprepared
    obtain ⟨trace, hends, hendings⟩ := ends_work hunits home disk hworker
    rw [transpile_eq hprepared]
    exact ⟨trace, .ended hprepared hends, hendings⟩

/-- The manifest that a run in the order of the units saves, if it gets so far. -/
def savedManifest? (g : Settings) (worker : Worker) (d : Disk) (path : Text) : Option Json :=
  match d.loadManifest path with
  | .error _ => none
  | .ok manifest =>
    (transpile g worker d (Path.directoryOf d.work path) (.obj manifest)).result.toOption.map
      Prod.snd

theorem runs_runProject (g : Settings) {worker : Worker} (hworker : ∀ u, worker u ≠ some .timedOut)
    (d : Disk) (path : Text) :
    ∃ trace, RunsProject g d path trace (savedManifest? g worker d path)
        (runProject g worker d path) ∧
      ∀ s ∈ trace, g.ending? worker s.flight.unit = some s.ending := by
  unfold savedManifest? runProject
  cases hload : d.loadManifest path with
  | error e => exact ⟨[], .unread hload, nofun⟩
  | ok fields =>
    obtain ⟨trace, hcompiles, hendings⟩ := compiles_transpile g hworker d
      (Path.directoryOf d.work path) (.obj fields)
    exact ⟨trace, .compiled hload hcompiles, hendings⟩

end BlockScript
