-- Settling units in any order. Each unit has one deed: an outcome under its
-- path and files at places of its own. Deeds do not get in each other's way, so
-- a run leaves the same whichever unit is settled first.
import BlockScript.Project.Run
import BlockScript.Proofs.DiskWrites

namespace BlockScript

/-! ## Files with texts -/

/-- A file with the text in it. -/
def Item.ofText (text : Text) : Item := .file (Disk.encodePieces [text]).1

namespace Disk

/-- What is left at a place when a text is written there. -/
def itemWith (d : Disk) (p : Place) (text : Text) : Item :=
  .file (d.leftAt p (encodePieces [text]).1)

/-- Why the writing of a text at a place breaks off, if it does. -/
def breakWith? (d : Disk) (p : Place) (text : Text) : Option BreakCause :=
  d.breakAt? p (encodePieces [text]).1.length

/-- Where the writing does not break off, all bytes are left. -/
theorem leftAt_of_fits {d : Disk} {p : Place} {bytes : List UInt8}
    (h : d.breakAt? p bytes.length = none) : d.leftAt p bytes = bytes := by
  unfold leftAt
  unfold breakAt? at h
  split
  · rename_i room cause heq
    rw [heq] at h
    simp only [ite_eq_right_iff, reduceCtorEq, imp_false, Nat.not_lt] at h
    rw [List.take_of_length_le h]
  · rfl

theorem itemWith_of_fits {d : Disk} {p : Place} {text : Text} (h : d.breakWith? p text = none) :
    d.itemWith p text = .ofText text := by
  rw [itemWith, leftAt_of_fits h, Item.ofText]

theorem writeAt_text (d : Disk) (p : Place) (text : Text) :
    d.writeAt p [text] = (d.put p (d.itemWith p text), match text.encodeError? with
      | some e => .error (.unencodable e)
      | none =>
        match d.breakWith? p text with
        | some cause => .error (.brokenOff cause)
        | none => .ok ()) := by
  unfold writeAt itemWith breakWith? encodePieces Text.utf8
  cases text.encodeError? with
  | none => rfl
  | some e =>
    have hnothing : d.breakAt? p ([] : List UInt8).length = none := by
      unfold breakAt?
      split <;> rfl
    simp only [hnothing]
    rfl

/-- A text that does not fit has a UTF-8 form: of another one nothing is written. -/
theorem encodable_of_break {d : Disk} {p : Place} {text : Text} {cause : BreakCause}
    (h : d.breakWith? p text = some cause) : text.encodeError? = none := by
  cases htext : text.encodeError? with
  | none => rfl
  | some e =>
    unfold breakWith? breakAt? encodePieces Text.utf8 at h
    rw [htext] at h
    split at h <;> cases h

/-- Writes texts at places, one after the other. -/
def putAll (d : Disk) (files : List (Place × Text)) : Disk :=
  files.foldl (fun d w => d.put w.1 (d.itemWith w.1 w.2)) d

@[simp] theorem hurdle_putAll (d : Disk) (files : List (Place × Text)) :
    (d.putAll files).hurdle? = d.hurdle? := by
  induction files generalizing d with
  | nil => rfl
  | cons w rest ih => exact ih (d.put w.1 (d.itemWith w.1 w.2))

end Disk

/-! ## Deeds -/

/-- What settling a unit comes to: its outcome, and the texts that are written, each at its
place. -/
structure Deed where
  outcome : UnitOutcome
  files : List (Place × Text)

/-- Every text that is written has a UTF-8 form. -/
def Deed.IsEncodable (a : Deed) : Prop := ∀ w ∈ a.files, w.2.encodeError? = none

namespace Batch

/-- The deed of a failed unit: its error log, where that can be written. -/
def failureDeed (b : Batch) (suffix : Text) (u : WorkUnit) (f : UnitFailure) : Deed :=
  { outcome := { id := u.id, kind := u.kind, label := u.label, success := false
                 outputFile := u.logPath suffix, message := some f.message }
    files := match b.disk.open? (Path.joined b.home (u.logPath suffix)) with
      | .ok p => [(p, errorLog u f)]
      | .error _ => [] }

/-- The failure of a unit whose script is not written. -/
def unwritten (u : WorkUnit) (e : DiskError) : UnitFailure :=
  { message := "Cannot write " ++ u.path ++ ": " ++ e.message, traced := true }

/-- The deed of a unit that has its script. A script that cannot be written is a failure, and of one
whose writing breaks off a part is left. -/
def scriptDeed (b : Batch) (suffix : Text) (u : WorkUnit) (source : Text) : Deed :=
  match b.disk.open? (Path.joined b.home u.path) with
  | .error refusal => b.failureDeed suffix u (unwritten u refusal)
  | .ok p =>
    match b.disk.breakWith? p source with
    | some cause =>
      let a := b.failureDeed suffix u (unwritten u (.brokenOff cause))
      { a with files := (p, source) :: a.files }
    | none =>
      { outcome := { id := u.id, kind := u.kind, label := u.label, success := true
                     outputFile := u.path, message := none }
        files := [(p, source)] }

/-- The deed of a unit that ends. -/
def deed (b : Batch) (suffix : Text) (u : WorkUnit) (e : Ending) : Deed :=
  match e.result b.settings.unitTimeout u.id with
  | .error f => b.failureDeed suffix u f
  | .ok source => b.scriptDeed suffix u source

/-- The batch after a deed, with nothing added to its log. -/
def carry (b : Batch) (u : WorkUnit) (a : Deed) : Batch :=
  { b with disk := b.disk.putAll a.files, report := b.report.add u.path a.outcome }

/-- The directory that all files of the batch go to. -/
def folder (b : Batch) : Text := Path.folder b.home b.settings.outputDir

/-- What a step of settling does. A directory that cannot be named stops the batch; a text that
cannot be written does so too; and otherwise the deed is done. -/
inductive Settles (b : Batch) (u : WorkUnit) (a : Deed) : Batch → Prop
  | blocked {s : Stop} : Disk.blocked? b.folder = some s → b.Settles u a { b with stop := some s }
  | undone {b' : Batch} : Disk.blocked? b.folder = none → ¬ a.IsEncodable → b'.stop.isSome = true →
      b.Settles u a b'
  | done {log : List Text} : Disk.blocked? b.folder = none → a.IsEncodable →
      b.Settles u a { b.carry u a with log }

end Batch

/-! ## One step -/

section Files

variable {g : Settings} {u : WorkUnit} {base : Text} (hfiled : u.Filed g base) (home : Text)

include hfiled

theorem joined_path :
    IsFileName (base ++ ".js") ∧
      Path.joined home u.path = Path.folder home g.outputDir ++ "/" ++ (base ++ ".js") := by
  refine ⟨isFileName_append hfiled.notEmpty hfiled.glyphs isEnding_script, ?_⟩
  rw [hfiled.path, List.append_assoc _ base, Path.joined_folder]

theorem joined_logPath {suffix : Text} (hsuffix : IsLogSuffix suffix) :
    IsFileName (base ++ suffix) ∧
      Path.joined home (u.logPath suffix)
        = Path.folder home g.outputDir ++ "/" ++ (base ++ suffix) := by
  refine ⟨isFileName_append hfiled.notEmpty hfiled.glyphs hsuffix.toIsEnding, ?_⟩
  rw [logPath_eq hfiled, List.append_assoc _ base, Path.joined_folder]

end Files

namespace Batch

/-- A batch whose error logs end with `suffix`, and a unit with a file in its directory. -/
structure Handles (b : Batch) (suffix : Text) (u : WorkUnit) : Prop where
  logs : b.settings.errorLogSuffix = .str suffix
  suffix : IsLogSuffix suffix
  filed : ∃ base, u.Filed b.settings base

section Step

variable {b : Batch} {suffix : Text} {u : WorkUnit} (hu : b.Handles suffix u)

include hu

theorem stopOf_open_path :
    Disk.stopOf? (b.disk.open? (Path.joined b.home u.path)) = Disk.blocked? b.folder := by
  obtain ⟨base, hfiled⟩ := hu.filed
  obtain ⟨hname, hpath⟩ := joined_path hfiled b.home
  rw [hpath, Disk.stopOf_open, Disk.blocked_append _ hname, folder]

theorem stopOf_open_logPath :
    Disk.stopOf? (b.disk.open? (Path.joined b.home (u.logPath suffix)))
      = Disk.blocked? b.folder := by
  obtain ⟨base, hfiled⟩ := hu.filed
  obtain ⟨hname, hpath⟩ := joined_logPath hfiled b.home hu.suffix
  rw [hpath, Disk.stopOf_open, Disk.blocked_append _ hname, folder]

theorem settles_failure (f : UnitFailure) :
    b.Settles u (b.failureDeed suffix u f) (b.settleFailure u f) := by
  have hstop := stopOf_open_logPath hu
  unfold failureDeed settleFailure
  rw [logFile_eq hu.logs]
  simp only [Disk.writeText_eq]
  cases hopen : b.disk.open? (Path.joined b.home (u.logPath suffix)) with
  | error refusal =>
    rw [hopen, Disk.stopOf?] at hstop
    simp only
    cases hs : refusal.stop? with
    | some s => exact .blocked (hstop.symm.trans hs)
    | none => exact .done (hstop.symm.trans hs) (by simp [Deed.IsEncodable])
  | ok p =>
    rw [hopen] at hstop
    simp only [Disk.writeAt_text]
    cases htext : (errorLog u f).encodeError? with
    | some e => exact .undone hstop.symm (by simp [Deed.IsEncodable, htext]) rfl
    | none =>
      -- an error log that breaks off is as good as one that is there
      have hencodable : ∀ w ∈ [(p, errorLog u f)], w.2.encodeError? = none := by simp [htext]
      cases b.disk.breakWith? p (errorLog u f) with
      | none => exact .done hstop.symm hencodable
      | some cause => exact .done hstop.symm hencodable

/-- A script whose writing breaks off is followed by the error log. -/
theorem settles_broken {p : Place} (hopen : b.disk.open? (Path.joined b.home u.path) = .ok p)
    {source : Text} {cause : BreakCause} (hbreak : b.disk.breakWith? p source = some cause)
    (f : UnitFailure) :
    let a := b.failureDeed suffix u f
    b.Settles u { a with files := (p, source) :: a.files }
      (({ b with disk := b.disk.put p (b.disk.itemWith p source) } : Batch).settleFailure u f) := by
  intro a
  have hblocked := stopOf_open_path hu
  rw [hopen] at hblocked
  obtain ⟨base, hfiled⟩ := hu.filed
  obtain ⟨hname, hpath⟩ := joined_path hfiled b.home
  obtain ⟨hlogName, hlogPath⟩ := joined_logPath hfiled b.home hu.suffix
  -- the written script leaves the way to the log as it is
  have hsame : ({ b with disk := b.disk.put p (b.disk.itemWith p source) } : Batch).failureDeed
      suffix u f = a := by
    rw [hpath] at hopen
    have hlog := Disk.open_put hname hopen
      (b.disk.leftAt p (Disk.encodePieces [source]).1) hlogName
    simp only [a, failureDeed, Disk.itemWith]
    rw [hlogPath, hlog]
  have hstep := settles_failure (b := { b with disk := b.disk.put p (b.disk.itemWith p source) })
    ⟨hu.logs, hu.suffix, hu.filed⟩ f
  rw [hsame] at hstep
  generalize ({ b with disk := b.disk.put p (b.disk.itemWith p source) } : Batch).settleFailure u f
    = b' at hstep ⊢
  cases hstep with
  | blocked h => cases hblocked.trans h
  | undone _ hnot hstop =>
    exact .undone hblocked.symm (fun h => hnot fun w hw => h w (List.mem_cons_of_mem _ hw)) hstop
  | done _ hdone =>
    exact .done hblocked.symm (List.forall_mem_cons.mpr ⟨Disk.encodable_of_break hbreak, hdone⟩)

theorem settles_script (source : Text) :
    b.Settles u (b.scriptDeed suffix u source) (b.settleScript u source) := by
  have hstop := stopOf_open_path hu
  unfold scriptDeed settleScript
  simp only [Disk.writeText_eq]
  cases hopen : b.disk.open? (Path.joined b.home u.path) with
  | error refusal =>
    rw [hopen, Disk.stopOf?] at hstop
    simp only
    cases hs : refusal.stop? with
    | some s => exact .blocked (hstop.symm.trans hs)
    | none => exact settles_failure hu _
  | ok p =>
    rw [hopen] at hstop
    simp only [Disk.writeAt_text]
    cases hbreak : b.disk.breakWith? p source with
    | some cause =>
      rw [Disk.encodable_of_break hbreak]
      exact settles_broken hu hopen hbreak _
    | none =>
      cases htext : source.encodeError? with
      | none => exact .done hstop.symm (by simp [Deed.IsEncodable, htext])
      | some e => exact .undone hstop.symm (by simp [Deed.IsEncodable, htext]) rfl

theorem settles (hrunning : b.stop = none) (e : Ending) :
    b.Settles u (b.deed suffix u e) (b.settle u e) := by
  unfold settle deed
  rw [hrunning]
  cases e.result b.settings.unitTimeout u.id with
  | ok source => exact settles_script hu source
  | error f => exact settles_failure hu f

end Step

/-- A place that the unit can write to: that of its script or of its error log. -/
def Opens (b : Batch) (suffix : Text) (u : WorkUnit) (p : Place) : Prop :=
  b.disk.open? (Path.joined b.home u.path) = .ok p ∨
    b.disk.open? (Path.joined b.home (u.logPath suffix)) = .ok p

theorem files_failureDeed {b : Batch} {suffix : Text} {u : WorkUnit} {f : UnitFailure} :
    ∀ w ∈ (b.failureDeed suffix u f).files,
      b.disk.open? (Path.joined b.home (u.logPath suffix)) = .ok w.1 ∧ w.2 = errorLog u f := by
  intro w hw
  unfold failureDeed at hw
  cases hopen : b.disk.open? (Path.joined b.home (u.logPath suffix)) with
  | error refusal => simp [hopen] at hw
  | ok q =>
    simp only [hopen, List.mem_singleton] at hw
    simp [hw]

/-- A deed writes a script at the place of scripts, and an error log at that of error logs. -/
theorem files_deed (b : Batch) (suffix : Text) (u : WorkUnit) (e : Ending) :
    ∃ source log, ∀ w ∈ (b.deed suffix u e).files,
      (b.disk.open? (Path.joined b.home u.path) = .ok w.1 ∧ w.2 = source) ∨
      (b.disk.open? (Path.joined b.home (u.logPath suffix)) = .ok w.1 ∧ w.2 = log) := by
  unfold deed
  cases e.result b.settings.unitTimeout u.id with
  | error f => exact ⟨[], _, fun w hw => .inr (files_failureDeed w hw)⟩
  | ok source =>
    simp only [scriptDeed]
    cases hopen : b.disk.open? (Path.joined b.home u.path) with
    | error refusal => exact ⟨source, _, fun w hw => .inr (files_failureDeed w hw)⟩
    | ok p =>
      simp only
      cases b.disk.breakWith? p source with
      | none => exact ⟨source, [], by simp⟩
      | some cause =>
        refine ⟨source, errorLog u (unwritten u (.brokenOff cause)), ?_⟩
        rw [List.forall_mem_cons]
        exact ⟨.inl ⟨rfl, rfl⟩, fun w hw => .inr (files_failureDeed w hw)⟩

theorem opens_deed {b : Batch} {suffix : Text} {u : WorkUnit} {e : Ending} {w : Place × Text}
    (h : w ∈ (b.deed suffix u e).files) : b.Opens suffix u w.1 := by
  obtain ⟨source, log, hfiles⟩ := files_deed b suffix u e
  exact (hfiles w h).imp And.left And.left

/-- A place where a file of the unit stands, if it is there. -/
def HasPlace (b : Batch) (suffix : Text) (u : WorkUnit) (p : Place) : Prop :=
  b.disk.place? (Path.joined b.home u.path) = .ok p ∨
    b.disk.place? (Path.joined b.home (u.logPath suffix)) = .ok p

section Place

variable {b : Batch} {suffix : Text} {u v : WorkUnit} (hu : b.Handles suffix u)
  (hv : b.Handles suffix v) {p : Place}

include hu

/-- What a unit can write to belongs to a name in the directory of all units. -/
theorem name_of_opens (h : b.Opens suffix u p) :
    ∃ name, IsFileName name ∧ b.disk.open? (b.folder ++ "/" ++ name) = .ok p := by
  obtain ⟨base, hfiled⟩ := hu.filed
  rcases h with hopen | hopen
  · obtain ⟨hname, hpath⟩ := joined_path hfiled b.home
    exact ⟨_, hname, by rw [folder, ← hpath, hopen]⟩
  · obtain ⟨hname, hpath⟩ := joined_logPath hfiled b.home hu.suffix
    exact ⟨_, hname, by rw [folder, ← hpath, hopen]⟩

theorem hasPlace_of_opens (h : b.Opens suffix u p) : b.HasPlace suffix u p := by
  obtain ⟨base, hfiled⟩ := hu.filed
  obtain ⟨hname, hpath⟩ := joined_path hfiled b.home
  obtain ⟨hlogName, hlogPath⟩ := joined_logPath hfiled b.home hu.suffix
  rw [Opens, hpath, hlogPath] at h
  rw [HasPlace, hpath, hlogPath]
  exact h.imp (Disk.place_of_open hname) (Disk.place_of_open hlogName)

theorem hasPlace_deed {e : Ending} {w : Place × Text} (h : w ∈ (b.deed suffix u e).files) :
    b.HasPlace suffix u w.1 :=
  hasPlace_of_opens hu (opens_deed h)

/-- The places of a unit belong to names in the directory of all units. -/
theorem name_of_hasPlace (h : b.HasPlace suffix u p) :
    ∃ name, IsFileName name ∧ b.disk.place? (b.folder ++ "/" ++ name) = .ok p ∧
      (b.settings.outputDir ++ "/" ++ name = u.path ∨
        b.settings.outputDir ++ "/" ++ name = u.logPath suffix) := by
  obtain ⟨base, hfiled⟩ := hu.filed
  rcases h with hplace | hplace
  · obtain ⟨hname, hpath⟩ := joined_path hfiled b.home
    exact ⟨_, hname, by rw [folder, ← hpath, hplace],
      .inl (by rw [hfiled.path, List.append_assoc _ base])⟩
  · obtain ⟨hname, hpath⟩ := joined_logPath hfiled b.home hu.suffix
    exact ⟨_, hname, by rw [folder, ← hpath, hplace],
      .inr (by rw [logPath_eq hfiled, List.append_assoc _ base])⟩

theorem ne_nil_of_hasPlace (h : b.HasPlace suffix u p) : p ≠ [] := by
  obtain ⟨name, hname, hplace, -⟩ := name_of_hasPlace hu h
  obtain ⟨-, q, -, -, rfl⟩ := (Disk.place_ok_iff hname).mp hplace
  simp

/-- The script of a unit and its error log stand at different places. -/
theorem script_ne_log {q : Place} (hscript : b.disk.open? (Path.joined b.home u.path) = .ok p)
    (hlog : b.disk.open? (Path.joined b.home (u.logPath suffix)) = .ok q) : p ≠ q := by
  rintro rfl
  obtain ⟨base, hfiled⟩ := hu.filed
  obtain ⟨hname, hpath⟩ := joined_path hfiled b.home
  obtain ⟨hlogName, hlogPath⟩ := joined_logPath hfiled b.home hu.suffix
  rw [hpath] at hscript
  rw [hlogPath] at hlog
  have hsame := Disk.name_eq_of_place_ok hname hlogName (Disk.place_of_open hname hscript)
    (Disk.place_of_open hlogName hlog)
  refine path_ne_logPath hu.suffix hfiled hfiled ?_
  rw [hfiled.path, logPath_eq hfiled, List.append_assoc _ base, List.append_assoc _ base, hsame]

/-- A deed writes one text at a place at most. -/
theorem eq_of_mem_files {e : Ending} {w w' : Place × Text} (hw : w ∈ (b.deed suffix u e).files)
    (hw' : w' ∈ (b.deed suffix u e).files) (h : w.1 = w'.1) : w = w' := by
  obtain ⟨source, log, hfiles⟩ := files_deed b suffix u e
  rcases hfiles w hw with ⟨hopen, htext⟩ | ⟨hopen, htext⟩ <;>
    rcases hfiles w' hw' with ⟨hopen', htext'⟩ | ⟨hopen', htext'⟩
  · exact Prod.ext h (htext.trans htext'.symm)
  · exact absurd h (script_ne_log hu hopen hopen')
  · exact absurd h.symm (script_ne_log hu hopen' hopen)
  · exact Prod.ext h (htext.trans htext'.symm)

include hv

/-- Units that share a place are one unit. -/
theorem path_eq_of_hasPlace (h : b.HasPlace suffix u p) (h' : b.HasPlace suffix v p) :
    u.path = v.path := by
  obtain ⟨name, hname, hplace, hfile⟩ := name_of_hasPlace hu h
  obtain ⟨name', hname', hplace', hfile'⟩ := name_of_hasPlace hv h'
  obtain rfl := Disk.name_eq_of_place_ok hname hname' hplace hplace'
  obtain ⟨base, hbase⟩ := hu.filed
  obtain ⟨base', hbase'⟩ := hv.filed
  rcases hfile with hfile | hfile <;> rcases hfile' with hfile' | hfile'
  · rw [← hfile, hfile']
  · exact absurd (hfile.symm.trans hfile') (path_ne_logPath hu.suffix hbase hbase')
  · exact absurd (hfile'.symm.trans hfile) (path_ne_logPath hu.suffix hbase' hbase)
  · exact path_eq_of_logPath_eq hbase hbase' (hfile.symm.trans hfile')

end Place

/-- Two batches of one project on whose disks the same files can be written. -/
structure Alike (b b' : Batch) : Prop where
  settings : b'.settings = b.settings
  home : b'.home = b.home
  work : b'.disk.work = b.disk.work
  hurdles : b'.disk.hurdle? = b.disk.hurdle?
  opens : ∀ name, IsFileName name →
    b'.disk.open? (b.folder ++ "/" ++ name) = b.disk.open? (b.folder ++ "/" ++ name)
  places : ∀ name, IsFileName name →
    b'.disk.place? (b.folder ++ "/" ++ name) = b.disk.place? (b.folder ++ "/" ++ name)

theorem Alike.refl (b : Batch) : b.Alike b :=
  ⟨rfl, rfl, rfl, rfl, fun _ _ => rfl, fun _ _ => rfl⟩

theorem Alike.handles {b b' : Batch} (h : b.Alike b') {suffix : Text} {u : WorkUnit}
    (hu : b.Handles suffix u) : b'.Handles suffix u := by
  refine ⟨?_, hu.suffix, ?_⟩
  · rw [h.settings, hu.logs]
  · rw [h.settings]
    exact hu.filed

theorem Alike.folder {b b' : Batch} (h : b.Alike b') : b'.folder = b.folder := by
  rw [Batch.folder, h.home, h.settings, Batch.folder]

theorem Alike.trans {b b' b'' : Batch} (h : b.Alike b') (h' : b'.Alike b'') : b.Alike b'' := by
  refine ⟨h'.settings.trans h.settings, h'.home.trans h.home, h'.work.trans h.work,
    h'.hurdles.trans h.hurdles, ?_, ?_⟩
  · intro name hname
    have hopen := h'.opens name hname
    rw [h.folder] at hopen
    rw [hopen, h.opens name hname]
  · intro name hname
    have hplace := h'.places name hname
    rw [h.folder] at hplace
    rw [hplace, h.places name hname]

/-- What a unit comes to depends on what can be written, not on what has been. -/
theorem Alike.deed {b b' : Batch} (h : b.Alike b') {suffix : Text} {u : WorkUnit}
    (hu : b.Handles suffix u) (e : Ending) : b'.deed suffix u e = b.deed suffix u e := by
  obtain ⟨base, hfiled⟩ := hu.filed
  have hscript : b'.disk.open? (Path.joined b.home u.path)
      = b.disk.open? (Path.joined b.home u.path) := by
    obtain ⟨hname, hpath⟩ := joined_path hfiled b.home
    rw [hpath]
    exact h.opens _ hname
  have hlog : b'.disk.open? (Path.joined b.home (u.logPath suffix))
      = b.disk.open? (Path.joined b.home (u.logPath suffix)) := by
    obtain ⟨hname, hpath⟩ := joined_logPath hfiled b.home hu.suffix
    rw [hpath]
    exact h.opens _ hname
  have hbreak : ∀ p text, b'.disk.breakWith? p text = b.disk.breakWith? p text := by
    intro p text
    unfold Disk.breakWith? Disk.breakAt?
    rw [h.hurdles]
  simp only [Batch.deed, scriptDeed, failureDeed, h.settings, h.home, hscript, hlog, hbreak]

/-- Files that are written in the directory of the units leave the same files to be written. -/
theorem alike_putAll {b : Batch} {files : List (Place × Text)}
    (hfiles : ∀ w ∈ files, ∃ name, IsFileName name ∧
      b.disk.open? (b.folder ++ "/" ++ name) = .ok w.1) :
    b.Alike { b with disk := b.disk.putAll files } := by
  induction files generalizing b with
  | nil => exact .refl b
  | cons w rest ih =>
    obtain ⟨⟨name, hname, hopen⟩, hrest⟩ := List.forall_mem_cons.mp hfiles
    have hstep : b.Alike { b with disk := b.disk.put w.1 (b.disk.itemWith w.1 w.2) } :=
      ⟨rfl, rfl, rfl, rfl, fun _ hother => Disk.open_put hname hopen _ hother,
        fun _ hother => Disk.place_put hname hopen _ hother⟩
    refine hstep.trans (ih ?_)
    intro w' hw'
    obtain ⟨name', hname', hopen'⟩ := hrest w' hw'
    exact ⟨name', hname', (hstep.opens name' hname').trans hopen'⟩

/-- A deed that is done leaves the same files to be written. -/
theorem alike_carry {b : Batch} {suffix : Text} {u : WorkUnit} (hu : b.Handles suffix u)
    (e : Ending) (log : List Text) : b.Alike { b.carry u (b.deed suffix u e) with log } := by
  have halike := alike_putAll fun w hw => name_of_opens hu (opens_deed (e := e) hw)
  exact ⟨rfl, rfl, halike.work, halike.hurdles, halike.opens, halike.places⟩

/-! ## Many steps -/

/-- Settles units one after the other. -/
def settleAll (b : Batch) (ends : List (WorkUnit × Ending)) : Batch :=
  ends.foldl (fun b x => b.settle x.1 x.2) b

theorem settleAll_append (b : Batch) (ends more : List (WorkUnit × Ending)) :
    b.settleAll (ends ++ more) = (b.settleAll ends).settleAll more :=
  List.foldl_append

/-- Does deeds one after the other. -/
def carryAll (b : Batch) (deedOf : WorkUnit × Ending → Deed) (ends : List (WorkUnit × Ending)) :
    Batch :=
  ends.foldl (fun b x => b.carry x.1 (deedOf x)) b

/-- The batch without its log and without the units that are pending. -/
def core (b : Batch) : Batch := { b with log := [], pending := [] }

@[simp] theorem disk_core (b : Batch) : b.core.disk = b.disk := rfl

@[simp] theorem report_core (b : Batch) : b.core.report = b.report := rfl

@[simp] theorem stop_core (b : Batch) : b.core.stop = b.stop := rfl

theorem settleAll_stopped {b : Batch} (h : b.stop.isSome = true) (ends : List (WorkUnit × Ending)) :
    b.settleAll ends = b := by
  induction ends with
  | nil => rfl
  | cons x rest ih =>
    have hx : b.settle x.1 x.2 = b := by rw [settle, if_pos h]
    rw [settleAll, List.foldl_cons, hx]
    exact ih

theorem settleAll_blocked {b : Batch} {suffix : Text} {s : Stop} (hrunning : b.stop = none)
    (hblocked : Disk.blocked? b.folder = some s) {ends : List (WorkUnit × Ending)}
    (hends : ∀ x ∈ ends, b.Handles suffix x.1) (hne : ends ≠ []) :
    b.settleAll ends = { b with stop := some s } := by
  cases ends with
  | nil => exact absurd rfl hne
  | cons x rest =>
    have hstep := settles (hends x List.mem_cons_self) hrunning x.2
    rw [settleAll, List.foldl_cons]
    generalize b.settle x.1 x.2 = b' at hstep ⊢
    cases hstep with
    | blocked h =>
      rw [hblocked] at h
      cases h
      exact settleAll_stopped rfl rest
    | undone h => rw [hblocked] at h; cases h
    | done h => rw [hblocked] at h; cases h

/-- A run of settling goes to its end if every text can be written, and then it does the deeds
that the first batch has for the units. -/
theorem settleAll_running {b : Batch} {suffix : Text} {ends : List (WorkUnit × Ending)}
    (hends : ∀ x ∈ ends, b.Handles suffix x.1) (hrunning : b.stop = none)
    (hblocked : Disk.blocked? b.folder = none) :
    ((b.settleAll ends).stop = none ↔ ∀ x ∈ ends, (b.deed suffix x.1 x.2).IsEncodable) ∧
    ((b.settleAll ends).stop = none → b.Alike (b.settleAll ends) ∧
      (b.settleAll ends).core = b.core.carryAll (fun x => b.deed suffix x.1 x.2) ends) := by
  induction ends generalizing b with
  | nil => exact ⟨by simpa [settleAll] using hrunning, fun _ => ⟨.refl b, rfl⟩⟩
  | cons x rest ih =>
    have hx := hends x List.mem_cons_self
    have hrest : ∀ y ∈ rest, b.Handles suffix y.1 := fun y hy => hends y (List.mem_cons_of_mem _ hy)
    have hstep := settles hx hrunning x.2
    rw [show b.settleAll (x :: rest) = (b.settle x.1 x.2).settleAll rest from rfl]
    generalize b.settle x.1 x.2 = b' at hstep ⊢
    cases hstep with
    | blocked h => rw [hblocked] at h; cases h
    | undone h hnot hstop =>
      rw [settleAll_stopped hstop]
      refine ⟨⟨fun h => ?_, fun h => absurd (h x List.mem_cons_self) hnot⟩, fun h => ?_⟩
      · rw [h] at hstop
        cases hstop
      · rw [h] at hstop
        cases hstop
    | @done log h hdone =>
      have halike := alike_carry hx x.2 log
      obtain ⟨hiff, hdeeds⟩ := ih (fun y hy => halike.handles (hrest y hy)) hrunning
        (by rw [halike.folder, hblocked])
      have hsame : ∀ y ∈ rest, ({ b.carry x.1 (b.deed suffix x.1 x.2) with log } : Batch).deed
          suffix y.1 y.2 = b.deed suffix y.1 y.2 := fun y hy => halike.deed (hrest y hy) y.2
      refine ⟨?_, ?_⟩
      · rw [hiff, List.forall_mem_cons]
        refine ⟨fun h => ⟨hdone, fun y hy => hsame y hy ▸ h y hy⟩,
          fun h y hy => (hsame y hy).symm ▸ h.2 y hy⟩
      · intro hstop
        obtain ⟨hrestAlike, hcore⟩ := hdeeds hstop
        refine ⟨halike.trans hrestAlike, ?_⟩
        rw [hcore, carryAll, carryAll, List.foldl_cons]
        exact List.foldl_ext _ _ _ fun c y hy => by rw [hsame y hy]

end Batch

/-! ## What is left in the end -/

/-- The last value that is written under a key, or else the one that was there before. -/
def latest {κ β : Type} [DecidableEq κ] (k : κ) (before : Option β) (l : List (κ × β)) : Option β :=
  l.foldl (fun v w => if w.1 = k then some w.2 else v) before

section Latest

variable {κ β : Type} [DecidableEq κ] {k : κ}

theorem latest_append (before : Option β) (l l' : List (κ × β)) :
    latest k before (l ++ l') = latest k (latest k before l) l' :=
  List.foldl_append

theorem latest_of_forall_ne {l : List (κ × β)} (h : ∀ w ∈ l, w.1 ≠ k) (before : Option β) :
    latest k before l = before := by
  induction l with
  | nil => rfl
  | cons w rest ih =>
    obtain ⟨hw, hrest⟩ := List.forall_mem_cons.mp h
    rw [latest, List.foldl_cons, if_neg hw]
    exact ih hrest

theorem latest_eq_some {v : β} {l : List (κ × β)} (huniq : ∀ w ∈ l, w.1 = k → w.2 = v)
    {before : Option β} (h : before = some v ∨ (k, v) ∈ l) : latest k before l = some v := by
  induction l generalizing before with
  | nil => simpa [latest] using h
  | cons w rest ih =>
    obtain ⟨hw, hrest⟩ := List.forall_mem_cons.mp huniq
    rw [latest, List.foldl_cons]
    apply ih hrest
    by_cases hk : w.1 = k
    · exact .inl (by rw [if_pos hk, hw hk])
    · rw [if_neg hk]
      rcases h with h | h
      · exact .inl h
      · rcases List.mem_cons.mp h with rfl | h
        · exact absurd rfl hk
        · exact .inr h

/-- Where no two values are written under a key, only what is written under it is of account, and
not the order of writing. -/
theorem latest_eq_of_mem_iff {l l' : List (κ × β)} (hmem : ∀ v, (k, v) ∈ l ↔ (k, v) ∈ l')
    (huniq : ∀ v w, (k, v) ∈ l → (k, w) ∈ l → v = w) (before : Option β) :
    latest k before l = latest k before l' := by
  have hvalue : ∀ v, (k, v) ∈ l → latest k before l = some v ∧ latest k before l' = some v := by
    intro v hv
    refine ⟨latest_eq_some ?_ (.inr hv), latest_eq_some ?_ (.inr ((hmem v).mp hv))⟩
    · rintro ⟨_, w⟩ hw rfl
      exact huniq w v hw hv
    · rintro ⟨_, w⟩ hw rfl
      exact huniq w v ((hmem w).mpr hw) hv
  by_cases h : ∃ v, (k, v) ∈ l
  · obtain ⟨v, hv⟩ := h
    rw [(hvalue v hv).1, (hvalue v hv).2]
  · rw [latest_of_forall_ne, latest_of_forall_ne]
    · rintro ⟨_, v⟩ hv rfl
      exact h ⟨v, (hmem v).mpr hv⟩
    · rintro ⟨_, v⟩ hv rfl
      exact h ⟨v, hv⟩

end Latest

theorem outcomeAt_setOutcome (path p : Text) (o : UnitOutcome) (l : List (Text × UnitOutcome)) :
    outcomeAt? path (setOutcome p o l) = if p = path then some o else outcomeAt? path l := by
  induction l with
  | nil => rfl
  | cons q rest ih =>
    obtain ⟨r, old⟩ := q
    by_cases hr : r = p
    · subst hr
      by_cases h : r = path <;> simp [setOutcome, outcomeAt?, h]
    · by_cases hpath : r = path
      · subst hpath
        simp [setOutcome, outcomeAt?, hr, Ne.symm hr]
      · simp [setOutcome, outcomeAt?, hr, hpath, ih]

/-- The files of a deed as they stand on a disk. -/
def Deed.writes (d : Disk) (a : Deed) : List (Place × Item) :=
  a.files.map fun w => (w.1, d.itemWith w.1 w.2)

theorem Deed.writes_congr {d d' : Disk} (h : d'.hurdle? = d.hurdle?) (a : Deed) :
    a.writes d' = a.writes d := by
  unfold writes Disk.itemWith Disk.leftAt
  rw [h]

theorem Disk.item_putAll (d : Disk) {files : List (Place × Text)} (hplaces : ∀ w ∈ files, w.1 ≠ [])
    (q : Place) :
    (d.putAll files).item? q =
      latest q (d.item? q) (files.map fun w => (w.1, d.itemWith w.1 w.2)) := by
  induction files generalizing d with
  | nil => rfl
  | cons w rest ih =>
    obtain ⟨hw, hrest⟩ := List.forall_mem_cons.mp hplaces
    refine (ih (d.put w.1 (d.itemWith w.1 w.2)) hrest).trans ?_
    rw [List.map_cons, latest, latest, List.foldl_cons, item_put d hw]
    simp only [eq_comm]
    rfl

namespace Batch

variable (b : Batch) (deedOf : WorkUnit × Ending → Deed) (ends : List (WorkUnit × Ending))

theorem outcome_carryAll (path : Text) :
    outcomeAt? path (b.carryAll deedOf ends).report.outcomes =
      latest path (outcomeAt? path b.report.outcomes)
        (ends.map fun x => (x.1.path, (deedOf x).outcome)) := by
  induction ends generalizing b with
  | nil => rfl
  | cons x rest ih =>
    refine (ih (b.carry x.1 (deedOf x))).trans ?_
    rw [List.map_cons, latest, latest, List.foldl_cons, carry, Report.add, outcomeAt_setOutcome]

theorem item_carryAll (hplaces : ∀ x ∈ ends, ∀ w ∈ (deedOf x).files, w.1 ≠ []) (q : Place) :
    (b.carryAll deedOf ends).disk.item? q =
      latest q (b.disk.item? q) (ends.flatMap fun x => (deedOf x).writes b.disk) := by
  induction ends generalizing b with
  | nil => rfl
  | cons x rest ih =>
    obtain ⟨hx, hrest⟩ := List.forall_mem_cons.mp hplaces
    have hwrites : (rest.flatMap fun y => (deedOf y).writes (b.carry x.1 (deedOf x)).disk)
        = rest.flatMap fun y => (deedOf y).writes b.disk :=
      List.flatMap_congr fun y _ => (deedOf y).writes_congr (Disk.hurdle_putAll _ _)
    refine (ih (b.carry x.1 (deedOf x)) hrest).trans ?_
    rw [List.flatMap_cons, latest_append, hwrites]
    congr 1
    exact b.disk.item_putAll hx q

theorem counters_carryAll :
    (b.carryAll deedOf ends).stop = b.stop ∧
    (b.carryAll deedOf ends).report.total = b.report.total ∧
    (b.carryAll deedOf ends).report.started = b.report.started ∧
    (b.carryAll deedOf ends).report.processed = b.report.processed + ends.length := by
  induction ends generalizing b with
  | nil => exact ⟨rfl, rfl, rfl, rfl⟩
  | cons x rest ih =>
    obtain ⟨hstop, htotal, hstarted, hprocessed⟩ := ih (b.carry x.1 (deedOf x))
    refine ⟨hstop, htotal, hstarted, hprocessed.trans ?_⟩
    rw [List.length_cons]
    simp only [carry, Report.add]
    omega

/-! ## Orders of settling -/

theorem handles_of_collect {b : Batch} {suffix : Text} {manifest : List (Text × Json)}
    {units : List WorkUnit} (hlogs : b.settings.errorLogSuffix = .str suffix)
    (hsuffix : IsLogSuffix suffix) (h : collectUnits b.settings manifest = .ok units) :
    ∀ u ∈ units, b.Handles suffix u :=
  fun u hu => ⟨hlogs, hsuffix, (nodup_paths h).2 u hu⟩

/-- Two batches that have left the same: the same files, outcomes, counters and stop. -/
structure SameResult (b b' : Batch) : Prop where
  stop : b.stop = b'.stop
  items : ∀ p, b.disk.item? p = b'.disk.item? p
  outcomes : ∀ path, outcomeAt? path b.report.outcomes = outcomeAt? path b'.report.outcomes
  total : b.report.total = b'.report.total
  started : b.report.started = b'.report.started
  processed : b.report.processed = b'.report.processed

theorem SameResult.refl (b : Batch) : b.SameResult b :=
  ⟨rfl, fun _ => rfl, fun _ => rfl, rfl, rfl, rfl⟩

theorem SameResult.of_core {b b' : Batch} (h : b.core.SameResult b'.core) : b.SameResult b' :=
  ⟨h.stop, h.items, h.outcomes, h.total, h.started, h.processed⟩

theorem SameResult.annotate {b b' : Batch} (h : b.SameResult b') (g : Settings)
    (manifest : List (Text × Json)) (units : List WorkUnit) :
    annotate g manifest units b.report = annotate g manifest units b'.report := by
  have hmarks : marksOf b.report units = marksOf b'.report units := by
    simp only [marksOf, h.outcomes]
  simp only [BlockScript.annotate, hmarks]

/-- A place belongs to one unit, and has one text from it at most. -/
theorem eq_of_mem_writes {b : Batch} {suffix : Text} {x y : WorkUnit × Ending}
    (hx : b.Handles suffix x.1) (hy : b.Handles suffix y.1) (hsame : x.1.path = y.1.path → x = y)
    {d : Disk} {w w' : Place × Item} (hw : w ∈ (b.deed suffix x.1 x.2).writes d)
    (hw' : w' ∈ (b.deed suffix y.1 y.2).writes d) (h : w.1 = w'.1) : w = w' := by
  obtain ⟨f, hf, rfl⟩ := List.mem_map.mp hw
  obtain ⟨f', hf', rfl⟩ := List.mem_map.mp hw'
  have hplace : b.HasPlace suffix y.1 f.1 := h ▸ hasPlace_deed hy hf'
  obtain rfl := hsame (path_eq_of_hasPlace hx hy (hasPlace_deed hx hf) hplace)
  rw [eq_of_mem_files hx hf hf' h]

theorem sameResult_carryAll {b : Batch} {suffix : Text} {first second : List (WorkUnit × Ending)}
    (hends : ∀ x ∈ first, b.Handles suffix x.1) (hnodup : (first.map fun x => x.1.path).Nodup)
    (hperm : first.Perm second) :
    (b.core.carryAll (fun x => b.deed suffix x.1 x.2) first).SameResult
      (b.core.carryAll (fun x => b.deed suffix x.1 x.2) second) := by
  have hsame : ∀ x ∈ first, ∀ y ∈ first, x.1.path = y.1.path → x = y :=
    fun x hx y hy h => List.inj_on_of_nodup_map hnodup hx hy h
  have hplaces : ∀ x ∈ first, ∀ w ∈ (b.deed suffix x.1 x.2).files, w.1 ≠ [] :=
    fun x hx w hw => ne_nil_of_hasPlace (hends x hx) (hasPlace_deed (hends x hx) hw)
  obtain ⟨hstop, htotal, hstarted, hprocessed⟩ :=
    counters_carryAll b.core (fun x => b.deed suffix x.1 x.2) first
  obtain ⟨hstop', htotal', hstarted', hprocessed'⟩ :=
    counters_carryAll b.core (fun x => b.deed suffix x.1 x.2) second
  refine ⟨hstop.trans hstop'.symm, ?_, ?_, htotal.trans htotal'.symm,
    hstarted.trans hstarted'.symm, ?_⟩
  · intro p
    rw [item_carryAll _ _ _ hplaces,
      item_carryAll _ _ _ fun x hx => hplaces x (hperm.mem_iff.mpr hx)]
    refine latest_eq_of_mem_iff (fun item => by simp only [List.mem_flatMap, hperm.mem_iff]) ?_ _
    intro item item' hitem hitem'
    obtain ⟨x, hx, hw⟩ := List.mem_flatMap.mp hitem
    obtain ⟨y, hy, hw'⟩ := List.mem_flatMap.mp hitem'
    exact congrArg Prod.snd
      (eq_of_mem_writes (hends x hx) (hends y hy) (hsame x hx y hy) hw hw' rfl)
  · intro path
    rw [outcome_carryAll, outcome_carryAll]
    refine latest_eq_of_mem_iff (fun o => by simp only [List.mem_map, hperm.mem_iff]) ?_ _
    intro o o' ho ho'
    obtain ⟨x, hx, hxo⟩ := List.mem_map.mp ho
    obtain ⟨y, hy, hyo⟩ := List.mem_map.mp ho'
    obtain ⟨hpath, rfl⟩ := Prod.mk.inj hxo
    obtain ⟨hpath', rfl⟩ := Prod.mk.inj hyo
    rw [hsame x hx y hy (hpath.trans hpath'.symm)]
  · rw [hprocessed, hprocessed', hperm.length_eq]

theorem sameResult_settleAll {b : Batch} {suffix : Text} {first second : List (WorkUnit × Ending)}
    (hends : ∀ x ∈ first, b.Handles suffix x.1) (hnodup : (first.map fun x => x.1.path).Nodup)
    (hencodable : ∀ x ∈ first, (b.deed suffix x.1 x.2).IsEncodable)
    (hperm : first.Perm second) : (b.settleAll first).SameResult (b.settleAll second) := by
  have hends' : ∀ x ∈ second, b.Handles suffix x.1 := fun x hx => hends x (hperm.mem_iff.mpr hx)
  cases hrunning : b.stop with
  | some s =>
    rw [settleAll_stopped (by simp [hrunning]), settleAll_stopped (by simp [hrunning])]
    exact .refl b
  | none =>
    cases hblocked : Disk.blocked? b.folder with
    | some s =>
      by_cases hne : first = []
      · subst hne
        rw [hperm.nil_eq]
        exact .refl _
      · have hne' : second ≠ [] := fun h => hne (by rw [h] at hperm; exact hperm.eq_nil)
        rw [settleAll_blocked hrunning hblocked hends hne,
          settleAll_blocked hrunning hblocked hends' hne']
        exact .refl _
    | none =>
      obtain ⟨hstop, hcore⟩ := settleAll_running hends hrunning hblocked
      obtain ⟨hstop', hcore'⟩ := settleAll_running hends' hrunning hblocked
      apply SameResult.of_core
      rw [(hcore (hstop.mpr hencodable)).2,
        (hcore' (hstop'.mpr fun x hx => hencodable x (hperm.mem_iff.mpr hx))).2]
      exact sameResult_carryAll hends hnodup hperm

end Batch

/-- Whichever unit is settled first, a run leaves the same files, outcomes and counters, and its
manifest is marked with the same scripts. -/
theorem order_of_settling_is_of_no_account (b : Batch) (manifest : List (Text × Json))
    (units : List WorkUnit) (ends first second : List (WorkUnit × Ending))
    (hlogs : b.settings.errorLogSuffix = .str ".error.log")
    (hunits : collectUnits b.settings manifest = .ok units) (hends : ends.map Prod.fst = units)
    (hencodable : ∀ x ∈ ends, (b.deed ".error.log" x.1 x.2).IsEncodable)
    (hfirst : first.Perm ends) (hsecond : second.Perm ends) :
    (b.settleAll first).SameResult (b.settleAll second) ∧
    annotate b.settings manifest units (b.settleAll first).report
      = annotate b.settings manifest units (b.settleAll second).report ∧
    (b.stop = none → Disk.blocked? b.folder = none → (b.settleAll first).stop = none ∧
      (b.settleAll first).report.processed = b.report.processed + units.length) := by
  have hpaths : (ends.map fun x => x.1.path) = units.map WorkUnit.path := by
    rw [← hends, List.map_map]
    rfl
  have hhandles : ∀ x ∈ first, b.Handles ".error.log" x.1 := by
    intro x hx
    apply Batch.handles_of_collect hlogs isLogSuffix_usual hunits
    rw [← hends]
    exact List.mem_map_of_mem (hfirst.mem_iff.mp hx)
  have hnodup : (first.map fun x => x.1.path).Nodup := by
    rw [(hfirst.map _).nodup_iff, hpaths]
    exact (nodup_paths hunits).1
  have henc : ∀ x ∈ first, (b.deed ".error.log" x.1 x.2).IsEncodable :=
    fun x hx => hencodable x (hfirst.mem_iff.mp hx)
  have hsame := Batch.sameResult_settleAll hhandles hnodup henc (hfirst.trans hsecond.symm)
  refine ⟨hsame, hsame.annotate _ _ _, ?_⟩
  intro hrunning hblocked
  obtain ⟨hstop, hcore⟩ := Batch.settleAll_running hhandles hrunning hblocked
  refine ⟨hstop.mpr henc, ?_⟩
  obtain ⟨-, -, -, hprocessed⟩ :=
    Batch.counters_carryAll b.core (fun x => b.deed ".error.log" x.1 x.2) first
  rw [← (hcore (hstop.mpr henc)).2] at hprocessed
  rw [← hends, List.length_map, ← hfirst.length_eq]
  exact hprocessed

/-- Two objects of one id, the first with a script and the second lost, settled both ways. -/
theorem repeated_id_settled_both_ways :
    let object : Json := .obj [("id", .str "dup"), ("script", .str "[]")]
    let manifest : List (Text × Json) := [("objects", .arr [object, object])]
    let disk : Disk := { items := [(["p"], .directory), (["p", "script"], .directory)] }
    let b : Batch := { settings := {}, home := "/p", disk }
    let u : WorkUnit := { id := "dup", name := "dup", script := "[]", path := "script/dup.js" }
    let v : WorkUnit := { id := "dup", name := "dup", script := "[]", path := "script/dup_2.js" }
    let ends : List (WorkUnit × Ending) := [(u, .script "run();"), (v, .lost 3)]
    collectUnits {} manifest = .ok [u, v] ∧
    (b.settleAll ends).SameResult (b.settleAll ends.reverse) ∧
    ((b.settleAll ends.reverse).disk.item? ["p", "script", "dup_2.error.log"]).isSome = true := by
  intro object manifest disk b u v ends
  have hunits : collectUnits {} manifest = .ok [u, v] := by rfl
  have hencodable : ∀ x ∈ ends, (b.deed ".error.log" x.1 x.2).IsEncodable := by
    intro x hx w hw
    simp only [ends, List.mem_cons, List.not_mem_nil, or_false] at hx
    rcases hx with rfl | rfl
    · cases List.mem_singleton.mp hw
      rfl
    · cases List.mem_singleton.mp hw
      rfl
  exact ⟨hunits, (order_of_settling_is_of_no_account b manifest [u, v] ends ends ends.reverse rfl
    hunits rfl hencodable (.refl _) (List.reverse_perm _)).1, by decide +kernel⟩

end BlockScript
