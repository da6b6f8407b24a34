-- Answers to requests for a conversion. A request is answered with a JSON object that
-- says whether the run gave a report, unless its root, its time limit or what stops the
-- run was not foreseen and escapes, or its run waits for a unit that never ends.
import BlockScript.Proofs.Isolation
import BlockScript.Service

namespace BlockScript

/-! ## Settings of requests -/

/-- Settings whose marks are texts and whose time limit is a double, if there is one. -/
structure Settings.IsRequested (g : Settings) : Prop where
  scriptField : ∃ t, g.scriptField = .str t
  errorLogSuffix : ∃ t, g.errorLogSuffix = .str t
  unitTimeout : g.unitTimeout.whole? = none

theorem eq_of_checkTimeout {v w : Json} (h : checkTimeout v = .ok w) : w = v := by
  unfold checkTimeout at h
  split at h
  · cases h
    rfl
  · split at h <;> cases h
    rfl

theorem isRequested_ofFields {fields : List (Text × Json)} {g : Settings}
    (hmarks : ∀ key ∈ ["script_field", "error_log_suffix"],
      field? (Text.ofString key) fields = none)
    (htimeout : ∀ v, field? "unit_timeout" fields = some v → v.whole? = none)
    (h : Settings.ofFields fields = .ok g) : g.IsRequested := by
  unfold Settings.ofFields at h
  split at h
  · cases h
  · obtain ⟨timeout, hchecked, h⟩ := ok_of_bind_ok h
    obtain ⟨dir, -, h⟩ := ok_of_bind_ok h
    obtain ⟨indent, -, h⟩ := ok_of_bind_ok h
    obtain ⟨method, -, h⟩ := ok_of_bind_ok h
    cases h
    refine ⟨⟨"scriptFile", ?_⟩, ⟨".error.log", ?_⟩, ?_⟩
    · simp only [hmarks "script_field" (by simp)]
      rfl
    · simp only [hmarks "error_log_suffix" (by simp)]
      rfl
    · have heq : timeout = (field? "unit_timeout" fields).getD ({} : Settings).unitTimeout :=
        eq_of_checkTimeout hchecked
      change timeout.whole? = none
      cases hfield : field? "unit_timeout" fields with
      | none =>
        rw [heq, hfield]
        rfl
      | some v =>
        rw [heq, hfield]
        exact htimeout v hfield

theorem whole_timeoutOfText {t : Text} {v : Json} (h : Settings.timeoutOfText t = .ok v) :
    v.whole? = none := by
  unfold Settings.timeoutOfText at h
  split at h
  · cases h
    rfl
  · split at h <;> cases h
    rfl

theorem whole_given {given : Option Text} {v : Json}
    (h : given.mapM Settings.timeoutOfText = .ok (some v)) : v.whole? = none := by
  cases given with
  | none => cases h
  | some t =>
    obtain ⟨w, hw, h⟩ := ok_of_bind_ok h
    cases h
    exact whole_timeoutOfText hw

theorem isRequested_ofEnvironment {environment : List (Text × Text)} {g : Settings}
    (h : Settings.ofEnvironment environment = .ok g) : g.IsRequested := by
  obtain ⟨timeout, htimeout, h⟩ := ok_of_bind_ok h
  obtain ⟨indent, -, h⟩ := ok_of_bind_ok h
  refine isRequested_ofFields (fun key hkey => ?_) (fun v hv => ?_) h
  · rw [Option.eq_none_iff_forall_ne_some]
    intro v hv
    have hmem := mem_of_field hv
    simp only [List.mem_cons, List.not_mem_nil, or_false] at hkey
    rcases hkey with rfl | rfl <;> simp +decide at hmem
  · have hmem := mem_of_field hv
    obtain rfl : timeout = some v := by simpa +decide using hmem
    exact whole_given htimeout

theorem isRequested_withTimeout {g g' : Settings} (hg : g.IsRequested) {v : Json}
    (hv : v.whole? = none) (h : g.withTimeout v = .ok g') : g'.IsRequested := by
  obtain ⟨timeout, hchecked, h⟩ := ok_of_bind_ok h
  cases h
  exact ⟨hg.scriptField, hg.errorLogSuffix, eq_of_checkTimeout hchecked ▸ hv⟩

theorem whole_requestedTimeout {v w : Json} (h : requestedTimeout v = .ok w) : w.whole? = none := by
  have hlimit (d : Double) : (if d.isZero then Json.null else .double d).whole? = none := by
    split <;> rfl
  unfold requestedTimeout at h
  split at h
  · cases h
    exact hlimit _
  · split at h <;> cases h
    exact hlimit _
  · split at h
    · cases h
    · split at h <;> cases h
      exact hlimit _

theorem isRequested_requestedSettings {environment : List (Text × Text)} {v : Json} {g : Settings}
    (h : requestedSettings environment v = .ok g) : g.IsRequested := by
  obtain ⟨usual, husual, h⟩ := ok_of_bind_ok h
  have husual := isRequested_ofEnvironment (ok_of_mapError husual)
  split at h
  · cases h
    exact husual
  · obtain ⟨timeout, htimeout, h⟩ := ok_of_bind_ok h
    exact isRequested_withTimeout husual (whole_requestedTimeout htimeout) (ok_of_mapError h)

theorem requestedTimeout_outOfRange_iff {v : Json} :
    requestedTimeout v = .error .outOfRange ↔ ∃ n, v.whole? = some n ∧ Double.ofInt? n = none := by
  unfold requestedTimeout
  split
  · exact ⟨nofun, nofun⟩
  · split <;> exact ⟨nofun, nofun⟩
  · split
    · rename_i hwhole
      refine ⟨nofun, ?_⟩
      rintro ⟨n, hn, -⟩
      cases hwhole.symm.trans hn
    · rename_i n hwhole
      split
      · rename_i d hd
        refine ⟨nofun, ?_⟩
        rintro ⟨n', hn', hnone⟩
        cases hwhole.symm.trans hn'
        cases hd.symm.trans hnone
      · rename_i hnone
        exact ⟨fun _ => ⟨n, hwhole, hnone⟩, fun _ => rfl⟩

/-- A time limit is past the range if it is a whole number that no double is near. It is looked at
only if the environment is in order. -/
theorem outOfRange_iff {environment : List (Text × Text)} {v : Json} :
    requestedSettings environment v = .error .outOfRange ↔
      (∃ g, Settings.ofEnvironment environment = .ok g) ∧
        ∃ n, v.whole? = some n ∧ Double.ofInt? n = none := by
  rw [← requestedTimeout_outOfRange_iff]
  unfold requestedSettings
  cases Settings.ofEnvironment environment with
  | error e => simp [Except.mapError, bind, Except.bind]
  | ok g =>
    have hthere : ∃ g', (Except.ok g : Except SettingsError Settings) = .ok g' := ⟨g, rfl⟩
    simp only [hthere, true_and, Except.mapError, bind, Except.bind]
    split
    · exact ⟨nofun, nofun⟩
    · cases requestedTimeout v with
      | error e => simp
      | ok w => cases hw : g.withTimeout w <;> simp [hw]

/-! ## Stops -/

/-- What stops a run from outside of the tool: a text without a UTF-8 form, a path with a null byte,
or a time limit that is too long for the clock. -/
inductive Stop.IsOutside (timeout : Json) : Stop → Prop
  | unencodable (e : EncodeError) : IsOutside timeout (.unencodable e)
  | nullByte : IsOutside timeout .nullByte
  | clock {s : Stop} : waitStop? timeout = some s → IsOutside timeout s

theorem isOutside_of_refusal {e : DiskError} {s : Stop} (h : e.stop? = some s) (timeout : Json) :
    s.IsOutside timeout := by
  cases e with
  | refused cause path => cases h
  | brokenOff cause => cases h
  | nullByte =>
    cases h
    exact .nullByte
  | unencodable e =>
    cases h
    exact .unencodable e

namespace Batch

/-- The batch has the settings, and nothing but the outside has stopped it. -/
structure Obeys (g : Settings) (b : Batch) : Prop where
  settings : b.settings = g
  stop : ∀ s ∈ b.stop, s.IsOutside g.unitTimeout

theorem obeys_stopped {g : Settings} {b : Batch} (hsettings : b.settings = g) {s : Stop}
    (hstop : b.stop = some s) (hs : s.IsOutside g.unitTimeout) : b.Obeys g := by
  refine ⟨hsettings, fun s' hs' => ?_⟩
  cases hstop.symm.trans hs'
  exact hs

section Steps

variable {g : Settings} (hg : g.IsRequested) {b : Batch} (hb : b.Obeys g)

include hb hg

theorem Obeys.settleFailure (u : WorkUnit) (f : UnitFailure) : (b.settleFailure u f).Obeys g := by
  -- a request has no say in the suffix, so there is always a name for the log
  obtain ⟨suffix, hsuffix⟩ := hg.errorLogSuffix
  have hlog : logFile b.settings u = .ok (u.path.take (u.path.length - 3) ++ suffix) := by
    rw [hb.settings, logFile, hsuffix]
  unfold Batch.settleFailure
  rw [hlog]
  simp only
  split
  · exact ⟨hb.settings, hb.stop⟩
  · split
    · rename_i s hs
      exact obeys_stopped hb.settings rfl (isOutside_of_refusal hs _)
    · exact ⟨hb.settings, hb.stop⟩

theorem Obeys.settleScript (u : WorkUnit) (source : Text) : (b.settleScript u source).Obeys g := by
  have hwritten (disk : Disk) : ({ b with disk } : Batch).Obeys g := ⟨hb.settings, hb.stop⟩
  unfold Batch.settleScript
  simp only
  split
  · exact ⟨hb.settings, hb.stop⟩
  · split
    · rename_i s hs
      exact obeys_stopped hb.settings rfl (isOutside_of_refusal hs _)
    · exact (hwritten _).settleFailure hg _ _

theorem Obeys.settle (u : WorkUnit) (e : Ending) : (b.settle u e).Obeys g := by
  unfold Batch.settle
  split
  · exact hb
  · split
    · exact hb.settleScript hg _ _
    · exact hb.settleFailure hg _ _

theorem Obeys.answer (path : Text) (e : Ending) : (b.answer path e).Obeys g := by
  unfold Batch.answer
  split
  · exact hb
  · have hfiltered (pending : List Flight) : ({ b with pending } : Batch).Obeys g :=
      ⟨hb.settings, hb.stop⟩
    exact (hfiltered _).settle hg _ e

theorem Obeys.dispatch (limit now : Nat) (u : WorkUnit) : (b.dispatch limit now u).Obeys g := by
  -- only whole numbers can be past the range, and the limit of a request is a double
  have hrange : outOfRange b.settings.unitTimeout = false := by
    rw [hb.settings, outOfRange, hg.unitTimeout]
  unfold Batch.dispatch
  split
  · exact hb
  · simp only
    split
    · exact ⟨hb.settings, hb.stop⟩
    · split
      · rename_i hpast
        exact absurd (hrange.symm.trans hpast) Bool.false_ne_true
      · exact ⟨hb.settings, hb.stop⟩

/-- A whole batch is stopped from outside only. -/
theorem Obeys.work (worker : Worker) (units : List WorkUnit) : (b.work worker units).Obeys g := by
  have hkept : IsKept units (Obeys g) :=
    { dispatch := fun b hb limit now u _ => hb.dispatch hg limit now u
      answer := fun b hb path e => hb.answer hg path e
      clock := fun b hb s hs => obeys_stopped hb.settings rfl (.clock (hb.settings ▸ hs)) }
  exact hkept.work hb worker

end Steps

end Batch

theorem stop_of_finish {g : Settings} (hg : g.IsRequested) {manifest : List (Text × Json)}
    {units : List WorkUnit} {b : Batch} {s : Stop}
    (h : (finish g manifest units b).result = .error (.stopped s)) : b.stop = some s := by
  obtain ⟨key, hkey⟩ := hg.scriptField
  obtain ⟨fields, hfields⟩ := annotate_ok (by rw [hkey]; rfl) manifest units b.report
  unfold finish at h
  cases hstop : b.stop with
  | some s' =>
    simp only [hstop] at h
    cases h
    rfl
  | none =>
    cases hpending : b.pending.isEmpty with
    | true =>
      simp only [hstop, hpending, if_true, hfields] at h
      cases h
    | false =>
      simp only [hstop, hpending] at h
      cases h

theorem pending_of_finish {g : Settings} {manifest : List (Text × Json)} {units : List WorkUnit}
    {b : Batch} (h : (finish g manifest units b).result = .error .endless) :
    b.stop = none ∧ b.pending ≠ [] := by
  unfold finish at h
  cases hstop : b.stop with
  | some s =>
    simp only [hstop] at h
    cases h
  | none =>
    refine ⟨rfl, ?_⟩
    intro hpending
    cases hfields : annotate g manifest units b.report <;>
      simp [hstop, hpending, hfields, Except.mapError] at h

/-- Preparing the units of a manifest is stopped from outside only. -/
theorem isOutside_of_prepare {g : Settings} {d disk : Disk} {home : Text}
    {manifest : List (Text × Json)} {s : Stop}
    (h : prepare g d home (.obj manifest) = (disk, .error (.stopped s))) :
    s.IsOutside g.unitTimeout := by
  have h := congrArg Prod.snd h
  simp only [prepare] at h
  split at h
  · split at h
    · rename_i s' hs'
      cases h
      exact isOutside_of_refusal hs' _
    · cases h
  · split at h
    · rename_i e _
      cases h
      exact .unencodable e
    · cases h

/-- Compiling the units of a manifest is stopped from outside only. -/
theorem isOutside_of_transpile {g : Settings} (hg : g.IsRequested) {worker : Worker} {d : Disk}
    {home : Text} {manifest : List (Text × Json)} {s : Stop}
    (h : (transpile g worker d home (.obj manifest)).result = .error (.stopped s)) :
    s.IsOutside g.unitTimeout := by
  rcases hprepared : prepare g d home (.obj manifest) with ⟨disk, e | ⟨fields, units⟩⟩
  · rw [transpile, hprepared] at h
    cases h
    exact isOutside_of_prepare hprepared
  · rw [transpile_eq hprepared] at h
    have hbegun : (begun g home disk units).Obeys g := ⟨rfl, by simp [begun, Batch.say]⟩
    have hwork := hbegun.work hg worker units
    exact hwork.stop s (stop_of_finish hg h)

/-- A run without a report ends as the compiling of its units does, at the reading or the saving of
its manifest, or at a refusal of the disk that stops it. -/
theorem error_of_runProject {g : Settings} {worker : Worker} {d : Disk} {path : Text}
    {e : RunError} (h : (runProject g worker d path).result = .error e) :
    (∃ fields, (transpile g worker d (Path.directoryOf d.work path) (.obj fields)).result
      = .error e) ∨
    (∃ cause, e = .manifest cause) ∨
    ∃ refusal s, DiskError.stop? refusal = some s ∧ e = .stopped s := by
  unfold runProject at h
  split at h
  · cases h
    exact .inr (.inl ⟨_, rfl⟩)
  · rename_i fields _
    unfold RunResult.save at h
    split at h
    · rename_i hrun
      cases h
      exact .inl ⟨fields, hrun⟩
    · simp only at h
      split at h
      · cases h
      · rename_i refusal _
        cases h
        cases hstop : refusal.stop? with
        | some s => exact .inr (.inr ⟨refusal, s, hstop, rfl⟩)
        | none => exact .inr (.inl ⟨_, rfl⟩)

/-- The run of a project is stopped from outside only. -/
theorem isOutside_of_run {g : Settings} (hg : g.IsRequested) {worker : Worker} {d : Disk}
    {path : Text} {s : Stop} (h : (runProject g worker d path).result = .error (.stopped s)) :
    s.IsOutside g.unitTimeout := by
  rcases error_of_runProject h with ⟨fields, hrun⟩ | ⟨cause, hcause⟩ | ⟨refusal, s', hstop, hs⟩
  · exact isOutside_of_transpile hg hrun
  · cases hcause
  · cases hs
    exact isOutside_of_refusal hstop _

theorem error_of_prepare {g : Settings} {d disk : Disk} {home : Text} {manifest : Json}
    {e : RunError} (h : prepare g d home manifest = (disk, .error e)) : e ≠ .endless := by
  rintro rfl
  have h := congrArg Prod.snd h
  simp only [prepare] at h
  split at h
  · split at h <;> cases h
  · split at h
    · split at h <;> cases h
    · cases h

/-- Compiling the units of a manifest is endless only if a worker never answers and there is no time
limit. -/
theorem silent_of_transpile {g : Settings} {worker : Worker} {d : Disk} {home : Text}
    {manifest : Json} (h : (transpile g worker d home manifest).result = .error .endless) :
    (∃ u, worker u = none) ∧ g.unitTimeout = .null := by
  rcases hprepared : prepare g d home manifest with ⟨disk, e | ⟨fields, units⟩⟩
  · rw [transpile, hprepared] at h
    cases h
    exact absurd rfl (error_of_prepare hprepared)
  · obtain ⟨-, -, hunits⟩ := prepare_ok_iff.mp hprepared
    rw [transpile_eq hprepared] at h
    obtain ⟨hstop, hpending⟩ := pending_of_finish h
    have hwaits : units ≠ [] → Batch.canWait g.unitTimeout = true := by
      intro hne
      by_contra hwait
      exact Batch.stop_work (b := begun g home disk units) rfl rfl (Bool.eq_false_iff.mpr hwait)
        worker hne hstop
    obtain ⟨-, hidle⟩ := Batch.work_settles (b := begun g home disk units) rfl rfl hwaits worker
      (nodup_paths hunits).1
    rw [hidle] at hpending
    obtain ⟨f, hf⟩ := List.exists_mem_of_ne_nil _ hpending
    obtain ⟨hworker, htimeout⟩ := Settings.silent_of_ending_none (Batch.mem_idle hf)
    exact ⟨⟨f.unit, hworker⟩, htimeout⟩

theorem silent_of_run {g : Settings} {worker : Worker} {d : Disk} {path : Text}
    (h : (runProject g worker d path).result = .error .endless) :
    (∃ u, worker u = none) ∧ g.unitTimeout = .null := by
  rcases error_of_runProject h with ⟨fields, hrun⟩ | ⟨cause, hcause⟩ | ⟨refusal, s, -, hs⟩
  · exact silent_of_transpile hrun
  · cases hcause
  · cases hs

/-! ## Requests -/

/-- The value is an object that names a manifest. -/
def Json.Names (value : Json) (fields : List (Text × Json)) (path : Json) : Prop :=
  value = .obj fields ∧ field? "manifest_path" fields = some path ∧ path.isGiven = true

/-- The value asks for the project under a path, with settings that are in order. -/
def AsksFor (environment : List (Text × Text)) (value : Json) (g : Settings) (path : Text) : Prop :=
  ∃ fields, value.Names fields (.str path) ∧
    requestedSettings environment ((field? "timeout" fields).getD .null) = .ok g

/-- The run that the value asks for gives a report. -/
def GivesReport (worker : Worker) (d : Disk) (environment : List (Text × Text)) (value : Json) :
    Prop :=
  ∃ g path report, AsksFor environment value g path ∧
    (runProject g worker d path).result = .ok report

/-- The run that the value asks for waits for a unit that never ends. -/
def NeverEnds (worker : Worker) (d : Disk) (environment : List (Text × Text)) (value : Json) :
    Prop :=
  ∃ g path, AsksFor environment value g path ∧
    (runProject g worker d path).result = .error .endless

/-- What the service does not foresee: a root that is there and not an object, a whole number of
seconds that no double is near, and a run that is stopped from outside. -/
inductive Unforeseen (worker : Worker) (d : Disk) (environment : List (Text × Text))
    (value : Json) : Prop
  | root : value.isGiven = true → (∀ fields, value ≠ .obj fields) →
    Unforeseen worker d environment value
  | timeout {fields : List (Text × Json)} {path limit : Json} {n : Int} : value.Names fields path →
    (∃ g, Settings.ofEnvironment environment = .ok g) → field? "timeout" fields = some limit →
    limit.whole? = some n → Double.ofInt? n = none → Unforeseen worker d environment value
  | stopped {g : Settings} {path : Text} {s : Stop} : AsksFor environment value g path →
    (runProject g worker d path).result = .error (.stopped s) → s.IsOutside g.unitTimeout →
    Unforeseen worker d environment value

theorem Json.Names.unique {value : Json} {fields fields' : List (Text × Json)} {path path' : Json}
    (h : value.Names fields path) (h' : value.Names fields' path') :
    fields = fields' ∧ path = path' := by
  obtain ⟨rfl, hpath, -⟩ := h
  obtain ⟨heq, hpath', -⟩ := h'
  cases heq
  exact ⟨rfl, Option.some.inj (hpath.symm.trans hpath')⟩

theorem Json.Names.isGiven {value : Json} {fields : List (Text × Json)} {path : Json}
    (h : value.Names fields path) : value.isGiven = true := by
  obtain ⟨rfl, hpath, -⟩ := h
  cases fields with
  | nil => cases hpath
  | cons head tail => rfl

theorem AsksFor.unique {environment : List (Text × Text)} {value : Json} {g g' : Settings}
    {path path' : Text} (h : AsksFor environment value g path)
    (h' : AsksFor environment value g' path') : g = g' ∧ path = path' := by
  obtain ⟨fields, hnames, hsettings⟩ := h
  obtain ⟨fields', hnames', hsettings'⟩ := h'
  obtain ⟨rfl, hpath⟩ := hnames.unique hnames'
  cases hpath
  exact ⟨Except.ok.inj (hsettings.symm.trans hsettings'), rfl⟩

theorem AsksFor.isRequested {environment : List (Text × Text)} {value : Json} {g : Settings}
    {path : Text} (h : AsksFor environment value g path) : g.IsRequested := by
  obtain ⟨fields, -, hsettings⟩ := h
  exact isRequested_requestedSettings hsettings

/-- A request that is in order is unforeseen only in what stops its run. -/
theorem AsksFor.unforeseen_iff {environment : List (Text × Text)} {value : Json} {g : Settings}
    {path : Text} (h : AsksFor environment value g path) (worker : Worker) (d : Disk) :
    Unforeseen worker d environment value ↔
      ∃ s, (runProject g worker d path).result = .error (.stopped s) := by
  constructor
  · intro hunforeseen
    cases hunforeseen with
    | root hgiven hroot =>
      obtain ⟨fields, ⟨hobj, -⟩, -⟩ := h
      exact absurd hobj (hroot fields)
    | timeout hnames henvironment hlimit hwhole hpast =>
      obtain ⟨fields, hnames', hsettings⟩ := h
      obtain ⟨rfl, -⟩ := hnames.unique hnames'
      rw [hlimit] at hsettings
      cases (outOfRange_iff.mpr ⟨henvironment, _, hwhole, hpast⟩).symm.trans hsettings
    | stopped hasks hrun houtside =>
      obtain ⟨rfl, rfl⟩ := h.unique hasks
      exact ⟨_, hrun⟩
  · rintro ⟨s, hrun⟩
    exact .stopped h hrun (isOutside_of_run h.isRequested hrun)

theorem AsksFor.givesReport_iff {environment : List (Text × Text)} {value : Json} {g : Settings}
    {path : Text} (h : AsksFor environment value g path) (worker : Worker) (d : Disk) :
    GivesReport worker d environment value ↔
      ∃ report, (runProject g worker d path).result = .ok report := by
  constructor
  · rintro ⟨g', path', report, hasks, hrun⟩
    obtain ⟨rfl, rfl⟩ := h.unique hasks
    exact ⟨report, hrun⟩
  · rintro ⟨report, hrun⟩
    exact ⟨g, path, report, h, hrun⟩

theorem AsksFor.neverEnds_iff {environment : List (Text × Text)} {value : Json} {g : Settings}
    {path : Text} (h : AsksFor environment value g path) (worker : Worker) (d : Disk) :
    NeverEnds worker d environment value ↔
      (runProject g worker d path).result = .error .endless := by
  constructor
  · rintro ⟨g', path', hasks, hrun⟩
    obtain ⟨rfl, rfl⟩ := h.unique hasks
    exact hrun
  · intro hrun
    exact ⟨g, path, h, hrun⟩

/-! ## Answers -/

/-- The reply is an answer with a JSON object that tells whether there was a success. -/
def Reply.Tells (r : Reply) (success : Bool) : Prop :=
  ∃ response fields, r = .answered response ∧ response.body = some (.obj fields) ∧
    field? "success" fields = some (.bool success)

theorem Reply.Tells.unique {r : Reply} {a b : Bool} (ha : r.Tells a) (hb : r.Tells b) : a = b := by
  obtain ⟨response, fields, rfl, hbody, ha⟩ := ha
  obtain ⟨response', fields', heq, hbody', hb⟩ := hb
  cases heq
  cases hbody.symm.trans hbody'
  cases ha.symm.trans hb
  rfl

theorem Reply.tells_failed (status : Nat) (error : Text) (log : Option (List Text)) :
    (Reply.answered (.failed status error log)).Tells false := ⟨_, _, rfl, rfl, rfl⟩

/-- How a request is served: its answer tells whether the run gave a report, what was not foreseen
escapes, and a run that never ends is waited for. A request that is refused as wrong has changed
nothing. -/
structure Served.AnswersFor (served : Served) (worker : Worker) (d : Disk)
    (environment : List (Text × Text)) (value : Json) : Prop where
  told : (∃ success, served.reply.Tells success) ↔
    ¬ Unforeseen worker d environment value ∧ ¬ NeverEnds worker d environment value
  escaped : (∃ e, served.reply = .escaped e) ↔ Unforeseen worker d environment value
  endless : served.reply = .endless ↔ NeverEnds worker d environment value
  success : served.reply.Tells true ↔ GivesReport worker d environment value
  kept : ∀ response, served.reply = .answered response → response.status = 400 → served.disk = d

section Conversions

variable {worker : Worker} {d : Disk} {environment : List (Text × Text)} {value : Json}
  {served : Served}

theorem answersFor_of_told {success : Bool} (htold : served.reply.Tells success)
    (hforeseen : ¬ Unforeseen worker d environment value)
    (hends : ¬ NeverEnds worker d environment value)
    (hsuccess : success = true ↔ GivesReport worker d environment value)
    (hkept : ∀ response, served.reply = .answered response → response.status = 400 →
      served.disk = d) :
    served.AnswersFor worker d environment value := by
  obtain ⟨response, fields, hreply, -⟩ := id htold
  refine ⟨⟨fun _ => ⟨hforeseen, hends⟩, fun _ => ⟨success, htold⟩⟩, ?_, ?_, ?_, hkept⟩
  · simp [hreply, hforeseen]
  · simp [hreply, hends]
  · rw [← hsuccess]
    constructor
    · intro h
      exact htold.unique h
    · rintro rfl
      exact htold

theorem answersFor_of_escaped {e : Escape} (hreply : served.reply = .escaped e)
    (hunforeseen : Unforeseen worker d environment value)
    (hends : ¬ NeverEnds worker d environment value)
    (hnone : ¬ GivesReport worker d environment value) :
    served.AnswersFor worker d environment value := by
  constructor <;> simp [Reply.Tells, hreply, hunforeseen, hends, hnone]

theorem answersFor_of_endless (hreply : served.reply = .endless)
    (hforeseen : ¬ Unforeseen worker d environment value)
    (hnever : NeverEnds worker d environment value)
    (hnone : ¬ GivesReport worker d environment value) :
    served.AnswersFor worker d environment value := by
  constructor <;> simp [Reply.Tells, hreply, hforeseen, hnever, hnone]

/-- An error that the tool reports is told, as one that does not lie in the request. -/
theorem reply_convertAt {g : Settings} {path : Text} {e : RunError}
    (hrun : (runProject g worker d path).result = .error e) (hreported : e.isReported = true) :
    ∃ status error log, status ≠ 400 ∧
      (convertAt worker g d path).reply = .answered (.failed status error log) := by
  unfold convertAt
  simp only [hrun]
  split
  · cases ‹Except.error e = .ok _›
  · cases ‹Except.error e = .error (.stopped _)›
    cases hreported
  · cases ‹Except.error e = .error .endless›
    cases hreported
  · exact ⟨404, _, _, by decide, rfl⟩
  · exact ⟨500, _, _, by decide, rfl⟩

/-- A request that is in order is answered as its run ends. -/
theorem answersFor_convertAt {g : Settings} {path : Text}
    (hasks : AsksFor environment value g path) :
    (convertAt worker g d path).AnswersFor worker d environment value := by
  have hforeseen := hasks.unforeseen_iff worker d
  have hreport := hasks.givesReport_iff worker d
  have hnever := hasks.neverEnds_iff worker d
  cases hrun : (runProject g worker d path).result with
  | ok report =>
    have hreply : ∃ body, (convertAt worker g d path).reply
        = .answered { status := 200, body := some (.obj (("success", .bool true) :: body)) } := by
      unfold convertAt
      simp only [hrun]
      exact ⟨_, rfl⟩
    obtain ⟨body, hreply⟩ := hreply
    refine answersFor_of_told ⟨_, _, hreply, rfl, rfl⟩ ?_ ?_ ?_ ?_
    · simp [hforeseen, hrun]
    · simp [hnever, hrun]
    · simp [hreport, hrun]
    · simp [hreply]
  | error e =>
    by_cases hreported : e.isReported = true
    · obtain ⟨status, error, log, hstatus, hreply⟩ := reply_convertAt hrun hreported
      refine answersFor_of_told (hreply ▸ Reply.tells_failed status error log) ?_ ?_ ?_ ?_
      · rw [hforeseen, hrun]
        rintro ⟨s, hs⟩
        cases hs
        cases hreported
      · rw [hnever, hrun]
        intro hs
        cases hs
        cases hreported
      · simp [hreport, hrun]
      · intro response hresponse hwrong
        cases hreply.symm.trans hresponse
        exact absurd hwrong hstatus
    · cases e with
      | stopped s =>
        refine answersFor_of_escaped (e := .stopped s) ?_ (hforeseen.mpr ⟨s, hrun⟩) ?_ ?_
        · unfold convertAt
          simp only [hrun]
        · simp [hnever, hrun]
        · simp [hreport, hrun]
      | endless =>
        refine answersFor_of_endless ?_ ?_ (hnever.mpr hrun) ?_
        · unfold convertAt
          simp only [hrun]
        · simp [hforeseen, hrun]
        · simp [hreport, hrun]
      | _ => exact absurd rfl hreported

section Refused

variable {fields : List (Text × Json)} {path : Json} (hnames : value.Names fields path)
  {e : TimeoutError}
  (hsettings : requestedSettings environment ((field? "timeout" fields).getD .null) = .error e)

include hnames hsettings

theorem not_asksFor_of_error (g : Settings) (t : Text) : ¬ AsksFor environment value g t := by
  rintro ⟨fields', hnames', hsettings'⟩
  obtain ⟨rfl, -⟩ := hnames.unique hnames'
  cases hsettings.symm.trans hsettings'

theorem unforeseen_of_error (worker : Worker) (d : Disk) :
    Unforeseen worker d environment value ↔ e = .outOfRange := by
  constructor
  · intro hunforeseen
    cases hunforeseen with
    | root hgiven hroot => exact absurd hnames.1 (hroot fields)
    | timeout hnames' henvironment hlimit hwhole hpast =>
      obtain ⟨rfl, -⟩ := hnames.unique hnames'
      rw [hlimit] at hsettings
      cases (outOfRange_iff.mpr ⟨henvironment, _, hwhole, hpast⟩).symm.trans hsettings
      rfl
    | stopped hasks hrun houtside => exact absurd hasks (not_asksFor_of_error hnames hsettings _ _)
  · rintro rfl
    obtain ⟨henvironment, n, hwhole, hpast⟩ := outOfRange_iff.mp hsettings
    cases hlimit : field? "timeout" fields with
    | none =>
      rw [hlimit] at hwhole
      cases hwhole
    | some limit =>
      rw [hlimit] at hwhole
      exact .timeout hnames henvironment hlimit hwhole hpast

end Refused

/-- A request that names no manifest is unforeseen only in its root. -/
theorem unforeseen_of_unnamed (hnames : ∀ fields path, ¬ value.Names fields path) (worker : Worker)
    (d : Disk) (environment : List (Text × Text)) :
    Unforeseen worker d environment value ↔
      value.isGiven = true ∧ ∀ fields, value ≠ .obj fields := by
  constructor
  · intro hunforeseen
    cases hunforeseen with
    | root hgiven hroot => exact ⟨hgiven, hroot⟩
    | timeout hnames' => exact absurd hnames' (hnames _ _)
    | stopped hasks =>
      obtain ⟨fields, hnames', -⟩ := hasks
      exact absurd hnames' (hnames _ _)
  · rintro ⟨hgiven, hroot⟩
    exact .root hgiven hroot

theorem not_givesReport (hasks : ∀ g t, ¬ AsksFor environment value g t) :
    ¬ GivesReport worker d environment value := by
  rintro ⟨g, path, report, h, -⟩
  exact hasks g path h

theorem not_neverEnds (hasks : ∀ g t, ¬ AsksFor environment value g t) :
    ¬ NeverEnds worker d environment value := by
  rintro ⟨g, path, h, -⟩
  exact hasks g path h

theorem answersFor_failed (hasks : ∀ g t, ¬ AsksFor environment value g t)
    (hforeseen : ¬ Unforeseen worker d environment value) (error : Text) :
    ({ disk := d, reply := .answered (.failed 400 error none) } : Served).AnswersFor worker d
      environment value :=
  answersFor_of_told (Reply.tells_failed 400 error none) hforeseen (not_neverEnds hasks)
    ⟨nofun, fun h => absurd h (not_givesReport hasks)⟩ fun _ _ _ => rfl

/-- Every request for a conversion has its answer. -/
theorem answersFor_convert (htext : ∀ fields path, value.Names fields path → ∃ t, path = .str t) :
    (convert worker d environment value).AnswersFor worker d environment value := by
  by_cases hnames : ∃ fields path, value.Names fields path
  · obtain ⟨fields, path, hnames⟩ := hnames
    obtain ⟨t, rfl⟩ := htext fields path hnames
    obtain ⟨rfl, hpath, hgiven⟩ := id hnames
    unfold convert
    simp only [hnames.isGiven, hpath, hgiven, Option.getD_some, Bool.not_true, Bool.false_eq_true,
      if_false]
    cases hsettings : requestedSettings environment ((field? "timeout" fields).getD .null) with
    | ok g => exact answersFor_convertAt ⟨fields, hnames, hsettings⟩
    | error e =>
      have hasks := not_asksFor_of_error hnames hsettings
      have hunforeseen := unforeseen_of_error hnames hsettings worker d
      cases e with
      | outOfRange =>
        exact answersFor_of_escaped rfl (hunforeseen.mpr rfl) (not_neverEnds hasks)
          (not_givesReport hasks)
      | _ => exact answersFor_failed hasks (by simp [hunforeseen]) _
  · replace hnames : ∀ fields path, ¬ value.Names fields path :=
      fun fields path h => hnames ⟨fields, path, h⟩
    have hunforeseen := unforeseen_of_unnamed hnames worker d environment
    have hasks (g : Settings) (t : Text) : ¬ AsksFor environment value g t := by
      rintro ⟨fields, h, -⟩
      exact hnames fields _ h
    -- without a manifest, only a root that is no object gets past the check for one
    unfold convert
    simp only
    split
    · rename_i hgiven
      refine answersFor_failed hasks (fun h => ?_) _
      simp [(hunforeseen.mp h).1] at hgiven
    · rename_i hgiven
      split
      · rename_i fields
        have hpath : ((field? "manifest_path" fields).getD .null).isGiven = false := by
          cases hfield : field? "manifest_path" fields with
          | none => rfl
          | some path => exact Bool.eq_false_iff.mpr fun h => hnames fields path ⟨rfl, hfield, h⟩
        simp only [hpath, Bool.not_false, if_true]
        exact answersFor_failed hasks (fun h => (hunforeseen.mp h).2 fields rfl) _
      · rename_i hroot
        exact answersFor_of_escaped rfl (hunforeseen.mpr ⟨by simpa using hgiven, hroot⟩)
          (not_neverEnds hasks) (not_givesReport hasks)

end Conversions

/-- A request for a conversion, whatever JSON value it carries, is answered with a JSON object that
tells whether the run gave a report, unless its root is there and not an object, its time limit is
a whole number past the range, or its run is stopped from outside: then that escapes. Only a run
without a time limit and with a worker that never answers is waited for without an end. -/
theorem conversions_are_answered (worker : Worker) (d : Disk) (environment : List (Text × Text))
    (value : Json) (htext : ∀ fields path, value.Names fields path → ∃ t, path = .str t) :
    (convert worker d environment value).AnswersFor worker d environment value ∧
    (NeverEnds worker d environment value → (∃ u, worker u = none) ∧
      ∃ g path, AsksFor environment value g path ∧ g.unitTimeout = .null) := by
  refine ⟨answersFor_convert htext, ?_⟩
  rintro ⟨g, path, hasks, hrun⟩
  obtain ⟨hsilent, htimeout⟩ := silent_of_run hrun
  exact ⟨hsilent, g, path, hasks, htimeout⟩

/-- The time limit is a text. The run gives a report, and the answer says so. -/
theorem project_is_converted_within_a_limit :
    let d : Disk :=
      { items := [(["p"], .directory), (["p", "project.json"],
          .ofText "\x7b\"objects\": [\x7b\"id\": \"a\", \"script\": \"[]\"\x7d]\x7d")]
        work := "/" }
    let value : Json := .obj [("manifest_path", .str "/p/project.json"), ("timeout", .str "2.5")]
    (convert (honestWorker fun _ => .all 0) d [] value).reply.Tells true := by
  intro d value
  have hnames : value.Names _ (.str "/p/project.json") := ⟨rfl, rfl, rfl⟩
  obtain ⟨hanswers, -⟩ := conversions_are_answered (honestWorker fun _ => .all 0) d [] value
    fun fields path h => ⟨_, (h.unique hnames).2⟩
  refine hanswers.success.mpr ?_
  have hruns : ((requestedSettings [] (.str "2.5")).toOption.any fun g =>
      (runProject g (honestWorker fun _ => .all 0) d "/p/project.json").result.isOk) = true := by
    decide +kernel
  obtain ⟨g, hsettings, hrun⟩ := exists_of_any hruns
  obtain ⟨report, hreport⟩ := exists_of_isOk hrun
  have hlimit : (field? "timeout" [("manifest_path", Json.str "/p/project.json"),
      ("timeout", .str "2.5")]).getD .null = .str "2.5" := rfl
  exact ⟨g, _, report, ⟨_, hnames, hlimit ▸ hsettings⟩, hreport⟩

/-- With a list for its root, a request is not answered. -/
theorem list_as_root_is_unforeseen :
    (convert (honestWorker fun _ => .all 0) {} [] (.arr [.null])).reply
      = .escaped (.noFields (.arr [.null])) := rfl

end BlockScript
