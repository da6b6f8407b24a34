-- The marks in a manifest. An entry that is marked with a file has its own script
-- in that file, and nothing else in the manifest changes: no entry without a mark,
-- no other key or value, and no order of keys.
import BlockScript.Proofs.Isolation

namespace BlockScript

/-! ## What a mark changes -/

/-- A value is entered under a key. It takes the place of an old value, and a new key stands behind
all others. -/
inductive Enters (key : Text) (v : Json) : List (Text × Json) → List (Text × Json) → Prop
  | replaced (before after : List (Text × Json)) (old : Json) : key ∉ before.map Prod.fst →
      Enters key v (before ++ (key, old) :: after) (before ++ (key, v) :: after)
  | added {fields : List (Text × Json)} : key ∉ fields.map Prod.fst →
      Enters key v fields (fields ++ [(key, v)])

theorem enters_setField (key : Text) (v : Json) (fields : List (Text × Json)) :
    Enters key v fields (setField key v fields) := by
  induction fields with
  | nil => exact .added (by simp)
  | cons f rest ih =>
    obtain ⟨k, old⟩ := f
    rw [setField]
    by_cases hk : k = key
    · subst hk
      rw [if_pos rfl]
      exact .replaced [] rest old (by simp)
    · rw [if_neg hk]
      generalize setField key v rest = rest' at ih
      cases ih with
      | replaced before after old' hbefore =>
        exact .replaced ((k, old) :: before) after old' (by simpa [Ne.symm hk] using hbefore)
      | added hrest => exact .added (by simpa [Ne.symm hk] using hrest)

/-- What may become of a value in the list of a shelf: the entry of a unit is marked with a file. -/
def Shelf.Marks (s : Shelf) (key : Text) (v v' : Json) : Prop :=
  v' = v ∨ ∃ entry entry' file, v = .obj entry ∧ v' = .obj entry' ∧ s.isScripted entry = true ∧
    Enters key (.str file) entry entry'

/-- What may become of a field of a manifest: in the list of a shelf, entries are marked. -/
def Shelf.MarksField (s : Shelf) (key : Text) (f f' : Text × Json) : Prop :=
  f' = f ∨ ∃ vs vs', f = (s.key, .arr vs) ∧ f' = (s.key, .arr vs') ∧
    List.Forall₂ (s.Marks key) vs vs'

/-- Two manifests with the same fields in the same order, except for the marks of entries. -/
def SameButMarks (key : Text) (manifest manifest' : List (Text × Json)) : Prop :=
  List.Forall₂ (fun f f' => ∃ s ∈ [objectShelf, functionShelf], s.MarksField key f f')
    manifest manifest'

namespace Shelf

theorem marks_markedEntry {s : Shelf} {entry : List (Text × Json)} (h : s.isScripted entry = true)
    (key : Text) (m : Option Text) : s.Marks key (.obj entry) (.obj (markedEntry key entry m)) := by
  cases m with
  | none => exact .inl rfl
  | some file => exact .inr ⟨entry, _, file, rfl, rfl, h, enters_setField key _ entry⟩

theorem marks_mark (s : Shelf) (key : Text) (vs : List Json) (marks : List (Option Text)) :
    List.Forall₂ (s.Marks key) vs (s.mark key vs marks).1 := by
  induction vs generalizing marks with
  | nil => exact .nil
  | cons v rest ih =>
    cases v with
    | obj entry =>
      cases hscripted : s.isScripted entry with
      | false =>
        rw [mark_unscripted hscripted]
        exact .cons (.inl rfl) (ih marks)
      | true =>
        cases marks with
        | nil =>
          rw [mark]
          · exact .cons (.inl rfl) (ih [])
          · intro _ _ _ _ hmarks
            cases hmarks
        | cons m marks =>
          rw [mark_scripted hscripted]
          exact .cons (marks_markedEntry hscripted key m) (ih marks)
    | _ => exact .cons (.inl rfl) (ih marks)

theorem marksField_setField {s : Shelf} {key : Text} {vs vs' : List Json}
    (hvs : List.Forall₂ (s.Marks key) vs vs') {manifest : List (Text × Json)}
    (hfield : field? s.key manifest = some (.arr vs)) :
    List.Forall₂ (s.MarksField key) manifest (setField s.key (.arr vs') manifest) := by
  induction manifest with
  | nil => cases hfield
  | cons f rest ih =>
    obtain ⟨k, v⟩ := f
    rw [field?] at hfield
    rw [setField]
    by_cases hk : k = s.key
    · subst hk
      rw [if_pos rfl] at hfield ⊢
      cases hfield
      exact .cons (.inr ⟨vs, vs', rfl, rfl, hvs⟩) (List.forall₂_same.mpr fun _ _ => .inl rfl)
    · rw [if_neg hk] at hfield ⊢
      exact .cons (.inl rfl) (ih hfield)

theorem marksField_markIn (s : Shelf) (key : Text) (manifest : List (Text × Json))
    (marks : List (Option Text)) :
    List.Forall₂ (s.MarksField key) manifest (s.markIn key manifest marks).1 := by
  unfold markIn
  split
  · rename_i vs hfield
    exact marksField_setField (marks_mark s key vs marks) hfield
  · exact List.forall₂_same.mpr fun _ _ => .inl rfl

end Shelf

theorem sameButMarks_refl (key : Text) (manifest : List (Text × Json)) :
    SameButMarks key manifest manifest :=
  List.forall₂_same.mpr fun _ _ => ⟨objectShelf, List.mem_cons_self, .inl rfl⟩

/-- A field belongs to one shelf at most, so it is marked once at most. -/
theorem marksField_of_both {key : Text} {f f' f'' : Text × Json}
    (hobject : objectShelf.MarksField key f f') (hfunction : functionShelf.MarksField key f' f'') :
    ∃ s ∈ [objectShelf, functionShelf], s.MarksField key f f'' := by
  rcases hobject with rfl | ⟨vs, vs', rfl, rfl, hvs⟩
  · exact ⟨functionShelf, by simp, hfunction⟩
  · rcases hfunction with rfl | ⟨ws, ws', hkey, -, -⟩
    · exact ⟨objectShelf, by simp, .inr ⟨vs, vs', rfl, rfl, hvs⟩⟩
    · have hkeys : objectShelf.key ≠ functionShelf.key := by decide
      exact absurd (congrArg Prod.fst hkey) hkeys

theorem sameButMarks_markManifest (key : Text) (manifest : List (Text × Json))
    (marks : List (Option Text)) : SameButMarks key manifest (markManifest key manifest marks) := by
  rw [markManifest_eq]
  have hobjects := objectShelf.marksField_markIn key manifest marks
  have hfunctions := functionShelf.marksField_markIn key
    (objectShelf.markIn key manifest marks).1 (objectShelf.markIn key manifest marks).2
  generalize (objectShelf.markIn key manifest marks).1 = between at hobjects hfunctions ⊢
  generalize (functionShelf.markIn key between _).1 = marked at hfunctions ⊢
  unfold SameButMarks
  induction hobjects generalizing marked with
  | nil =>
    cases hfunctions
    exact .nil
  | cons hfield _ ih =>
    cases hfunctions with
    | cons hfield' hrest => exact .cons (marksField_of_both hfield hfield') (ih _ hrest)

/-- A manifest is annotated with the marks of its units, or left alone if there are none. -/
theorem annotate_cases {g : Settings} {key : Text} (hkey : g.scriptField = .str key)
    {manifest fields : List (Text × Json)} {units : List WorkUnit} {r : Report}
    (h : annotate g manifest units r = .ok fields) :
    fields = manifest ∨
      fields = markManifest key manifest (marksOf r units) ∧
        ¬ (marksOf r units).all Option.isNone = true := by
  unfold annotate at h
  simp only at h
  split at h
  · cases h
    exact .inl rfl
  · rename_i hsome
    rw [hkey] at h
    cases h
    exact .inr ⟨rfl, hsome⟩

theorem sameButMarks_annotate {g : Settings} {key : Text} (hkey : g.scriptField = .str key)
    {manifest fields : List (Text × Json)} {units : List WorkUnit} {r : Report}
    (h : annotate g manifest units r = .ok fields) : SameButMarks key manifest fields := by
  rcases annotate_cases hkey h with rfl | ⟨rfl, -⟩
  · exact sameButMarks_refl key _
  · exact sameButMarks_markManifest key manifest _

/-! ## What a success stands for -/

namespace Batch

variable {b : Batch} {suffix : Text} {u : WorkUnit} {e : Ending}

theorem success_failureDeed (f : UnitFailure) :
    (b.failureDeed suffix u f).outcome.success = false := rfl

/-- A unit succeeds with the script that its worker gave, which is all that it writes. -/
theorem script_of_success (h : (b.deed suffix u e).outcome.success = true) :
    ∃ source p, e = .script source ∧ b.disk.open? (Path.joined b.home u.path) = .ok p ∧
      b.disk.breakWith? p source = none ∧ (b.deed suffix u e).outcome.outputFile = u.path ∧
      (b.deed suffix u e).files = [(p, source)] := by
  unfold deed at h ⊢
  cases e with
  | script source =>
    simp only [Ending.result, scriptDeed] at h ⊢
    cases hopen : b.disk.open? (Path.joined b.home u.path) with
    | error refusal => simp [hopen, success_failureDeed] at h
    | ok p =>
      simp only [hopen] at h ⊢
      cases hbreak : b.disk.breakWith? p source with
      | some cause => simp [hbreak, success_failureDeed] at h
      | none => exact ⟨source, p, rfl, rfl, hbreak, by simp⟩
  | _ => simp [Ending.result, success_failureDeed] at h

/-- The file of a unit that succeeds holds its script. -/
theorem fileAfter_of_success (hu : b.Handles suffix u)
    (hencodable : (b.deed suffix u e).IsEncodable)
    (h : (b.deed suffix u e).outcome.success = true) :
    ∃ source bytes, e = .script source ∧ source.utf8 = .ok bytes ∧
      b.fileAfter suffix u e (Path.joined b.home u.path) = some bytes := by
  obtain ⟨source, p, rfl, hopen, hbreak, -, hfiles⟩ := script_of_success h
  have hsource : source.encodeError? = none := hencodable (p, source) (by simp [hfiles])
  obtain ⟨bytes, hbytes⟩ : ∃ bytes, source.utf8 = .ok bytes := by
    unfold Text.utf8
    rw [hsource]
    exact ⟨_, rfl⟩
  have hplace : b.disk.place? (Path.joined b.home u.path) = .ok p := by
    obtain ⟨base, hfiled⟩ := hu.filed
    obtain ⟨hname, hpath⟩ := joined_path hfiled b.home
    rw [hpath] at hopen ⊢
    exact Disk.place_of_open hname hopen
  refine ⟨source, bytes, rfl, hbytes, ?_⟩
  simp [fileAfter, hplace, latest, Deed.writes, hfiles, Disk.itemWith_of_fits hbreak, Item.ofText,
    Disk.encodePieces, hbytes, Disk.contentOf?]

end Batch

/-! ## Marked manifests -/

/-- The entry of a unit that ended is marked if the unit has its script, and else left alone. -/
theorem Compiled.marks {g : Settings} {suffix : Text} (hlogs : g.errorLogSuffix = .str suffix)
    (hsuffix : IsLogSuffix suffix) {key : Text} (hfield : g.scriptField = .str key)
    {d disk : Disk} {home : Text} {manifest : List (Text × Json)} {units : List WorkUnit}
    {ends : List (WorkUnit × Ending)} {marked : List (Text × Json)}
    {run : RunResult (Report × Json)} (h : Compiled g d home manifest disk units ends marked run)
    {report : Report} {marked' : Json} (hresult : run.result = .ok (report, marked'))
    {u : WorkUnit} {s : Shelf} {i : Nat} (hu : u.ComesFrom g manifest s i) {e : Ending}
    (he : (u, e) ∈ ends) :
    ∃ entry o, (s.entries manifest)[i]? = some entry ∧
      outcomeAt? u.path report.outcomes = some o ∧
      (o.success = true →
        (∃ entry', (s.entries marked)[i]? = some entry' ∧
          Enters key (.str u.path) entry entry') ∧
        ∃ source bytes, e = .script source ∧ source.utf8 = .ok bytes ∧
          run.disk.file? (Path.joined home u.path) = some bytes) ∧
      (o.success = false → (s.entries marked)[i]? = some entry) := by
  obtain ⟨-, hencodable, houtcome, hfiles, hmarked⟩ := h.left_for_unit hlogs hsuffix hu he
  obtain ⟨entry, hentry⟩ := hu.entry
  have hplace := hmarked entry hentry
  have hkey : g.markKey = key := by
    rw [Settings.markKey, hfield]
    rfl
  rw [hkey] at hplace
  cases hresult.symm.trans h.result
  refine ⟨entry, _, hentry, houtcome, ?_, ?_⟩
  · intro hsuccess
    obtain ⟨source, p, rfl, -, -, houtput, -⟩ := Batch.script_of_success hsuccess
    have hhandles : ({ settings := g, home, disk } : Batch).Handles suffix u :=
      Batch.handles_of_collect hlogs hsuffix h.collected u (h.mem_units he)
    obtain ⟨_, bytes, heq, hbytes, hfile⟩ :=
      Batch.fileAfter_of_success hhandles hencodable hsuccess
    cases heq
    refine ⟨⟨_, hplace, ?_⟩, source, bytes, rfl, hbytes, ?_⟩
    · rw [UnitOutcome.mark?, if_pos hsuccess, houtput]
      exact enters_setField _ _ _
    · rw [hfiles u.path List.mem_cons_self]
      exact hfile
  · intro hfailure
    rw [hplace, UnitOutcome.mark?, hfailure]
    rfl

/-- On every schedule a run that gives a report has an outcome for each unit. If it is a success,
the entry of the unit is marked with the path of the unit, where the script is with which the unit
ended; if it is a failure, the entry is as before. Everything else in the manifest is as before
too. -/
theorem marks_are_true_on_every_schedule {g : Settings} {suffix key : Text}
    (hlogs : g.errorLogSuffix = .str suffix) (hsuffix : IsLogSuffix suffix)
    (hfield : g.scriptField = .str key) {d : Disk} {home : Text} {manifest : Json}
    {trace : List Settlement} {run : RunResult (Report × Json)}
    (hrun : Compiles g d home manifest trace run) {report : Report} {marked : Json}
    (h : run.result = .ok (report, marked)) :
    ∃ fields fields', manifest = .obj fields ∧ marked = .obj fields' ∧
      SameButMarks key fields fields' ∧
      ∀ u s i, u.ComesFrom g fields s i → ∃ x ∈ trace, x.flight.unit = u ∧
        ∃ entry o, (s.entries fields)[i]? = some entry ∧
          outcomeAt? u.path report.outcomes = some o ∧
          (o.success = true →
            (∃ entry', (s.entries fields')[i]? = some entry' ∧
              Enters key (.str u.path) entry entry') ∧
            ∃ source bytes, x.ending = .script source ∧ source.utf8 = .ok bytes ∧
              run.disk.file? (Path.joined home u.path) = some bytes) ∧
          (o.success = false → (s.entries fields')[i]? = some entry) := by
  obtain ⟨fields, rfl, disk, units, fields', rfl, hcompiled⟩ := compiled_of_compiles hrun h
  refine ⟨fields, fields', rfl, rfl, sameButMarks_annotate hfield hcompiled.annotated, ?_⟩
  intro u s i hu
  obtain ⟨-, e, he⟩ := hcompiled.ending_of_comesFrom hu
  obtain ⟨x, hx, hpair⟩ := List.mem_map.mp he
  cases hpair
  exact ⟨x, hx, rfl, hcompiled.marks hlogs hsuffix hfield h hu he⟩

/-- A run that gives a report has an outcome for each unit that ends. If it is a success, the entry
of the unit is marked with the path of the unit, where the script of its own worker is; if it is a
failure, the entry is as before. Everything else in the manifest is as before too. -/
theorem marks_are_true_and_all_that_changes (g : Settings) (worker : Worker) (d : Disk)
    (home : Text) (manifest : Json) (report : Report) (marked : Json)
    (hlogs : g.errorLogSuffix = .str ".error.log") (hfield : g.scriptField = .str "scriptFile")
    (h : (transpile g worker d home manifest).result = .ok (report, marked)) :
    ∃ fields fields', manifest = .obj fields ∧ marked = .obj fields' ∧
      SameButMarks "scriptFile" fields fields' ∧
      ∀ u s i, u.ComesFrom g fields s i → (worker u).isSome = true ∨ g.unitTimeout ≠ .null →
        ∃ entry o, (s.entries fields)[i]? = some entry ∧
          outcomeAt? u.path report.outcomes = some o ∧
          (o.success = true →
            (∃ entry', (s.entries fields')[i]? = some entry' ∧
              Enters "scriptFile" (.str u.path) entry entry') ∧
            ∃ source bytes, worker u = some (.script source) ∧ source.utf8 = .ok bytes ∧
              (transpile g worker d home manifest).disk.file? (Path.joined home u.path)
                = some bytes) ∧
          (o.success = false → (s.entries fields')[i]? = some entry) := by
  obtain ⟨fields, rfl, disk, units, fields', rfl, hcompiled⟩ := compiled_of_transpile h
  refine ⟨fields, fields', rfl, rfl, sameButMarks_annotate hfield hcompiled.annotated, ?_⟩
  intro u s i hu _
  obtain ⟨-, e, he⟩ := hcompiled.ending_of_comesFrom hu
  obtain ⟨entry, o, hentry, houtcome, hyes, hno⟩ :=
    hcompiled.marks hlogs isLogSuffix_usual hfield h hu he
  refine ⟨entry, o, hentry, houtcome, ?_, hno⟩
  intro hsuccess
  obtain ⟨hmark, source, bytes, rfl, hfile⟩ := hyes hsuccess
  refine ⟨hmark, source, bytes, ?_, hfile⟩
  have hending := (mem_endings.mp he).2
  unfold Settings.ending? at hending
  split at hending
  · rename_i hworker
    rw [hworker, hending]
  · cases hending
  · cases hending

/-- Of two objects one gets a script in place of an old mark, and the worker of the other is lost.
What else stands in the manifest is no entry of a unit. -/
theorem one_object_is_marked_anew :
    let a : List (Text × Json) :=
      [("id", .str "a"), ("scriptFile", .null), ("script", .str "[]")]
    let b : List (Text × Json) := [("id", .str "b"), ("script", .str "[]")]
    let manifest : List (Text × Json) :=
      [("name", .str "n"), ("objects", .arr [.obj a, .int 3, .obj b, .obj [("id", .str "c")]])]
    let worker : Worker :=
      fun u => some (if u.id = Text.ofString "a" then .script "run();" else .lost 3)
    let run := transpile {} worker { items := [(["p"], .directory)] } "/p" (.obj manifest)
    ∃ report fields, run.result = .ok (report, .obj fields) ∧
      SameButMarks "scriptFile" manifest fields ∧
      (∃ a', (objectShelf.entries fields)[0]? = some a' ∧
        Enters "scriptFile" (.str "script/a.js") a a') ∧
      (∃ bytes, Text.utf8 "run();" = .ok bytes ∧ run.disk.file? "/p/script/a.js" = some bytes) ∧
      (objectShelf.entries fields)[1]? = some b := by
  intro a b manifest worker run
  obtain ⟨⟨report, marked⟩, h⟩ := exists_of_isOk (x := run.result) (by decide +kernel)
  have hsuccess (path : Text) : run.result.toOption.bind (fun r => outcomeAt? path r.1.outcomes)
      = outcomeAt? path report.outcomes := by
    rw [h]
    rfl
  obtain ⟨_, fields, heq, rfl, hsame, hunits⟩ := marks_are_true_and_all_that_changes {} worker
    { items := [(["p"], .directory)] } "/p" (.obj manifest) report marked rfl rfl h
  cases heq
  have ha : WorkUnit.ComesFrom
      { id := "a", name := "a", script := "[]", path := "script/a.js" } {} manifest objectShelf 0 :=
    ⟨_, rfl, List.mem_cons_self⟩
  have hb : WorkUnit.ComesFrom
      { id := "b", name := "b", script := "[]", path := "script/b.js" } {} manifest objectShelf 1 :=
    ⟨_, rfl, List.mem_cons_of_mem _ List.mem_cons_self⟩
  obtain ⟨entry, o, hentry, ho, hyes, -⟩ := hunits _ _ _ ha (.inl rfl)
  obtain ⟨entry', o', hentry', ho', -, hno⟩ := hunits _ _ _ hb (.inl rfl)
  cases hentry
  cases hentry'
  have hwritten : o.success = true := by
    have hrun : (run.result.toOption.bind fun r => outcomeAt? "script/a.js" r.1.outcomes).map
        UnitOutcome.success = some true := by decide +kernel
    rw [hsuccess, ho] at hrun
    exact Option.some.inj hrun
  have hlost : o'.success = false := by
    have hrun : (run.result.toOption.bind fun r => outcomeAt? "script/b.js" r.1.outcomes).map
        UnitOutcome.success = some false := by decide +kernel
    rw [hsuccess, ho'] at hrun
    exact Option.some.inj hrun
  obtain ⟨hmark, source, bytes, hsource, hbytes, hfile⟩ := hyes hwritten
  cases hsource
  exact ⟨report, fields, h, hsame, hmark, ⟨bytes, hbytes, hfile⟩, hno hlost⟩

end BlockScript
