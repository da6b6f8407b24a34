-- Timing. Units are dispatched, reported and timed out as the clock and their
-- workers have it. At every moment of every such run each unit is to be sent
-- out, in flight or settled once, and the report and the log say just that.
import BlockScript.Proofs.Waiting

namespace BlockScript

/-! ## Moments of a run -/

/-- A unit that was settled: as it was in flight, how it ended, and the clock as last read. -/
structure Settlement where
  flight : Flight
  ending : Ending
  clock : Nat

/-- The unit and its ending. -/
def Settlement.pair (s : Settlement) : WorkUnit × Ending := (s.flight.unit, s.ending)

/-- What a run is at: sending units out, about to wait, going through the units that a wait
reported, or through those still pending to see whose time is up. -/
inductive Stage where
  | dispatching (left : List WorkUnit)
  | waiting
  | collecting (reported : List (Flight × Ending))
  | checking (listed : List Flight)

/-- The units that are still to be dispatched. -/
def Stage.left : Stage → List WorkUnit
  | .dispatching units => units
  | _ => []

structure Moment where
  batch : Batch
  clock : Nat
  stage : Stage

namespace Moment

/-- One step of a run. A wait reports any of the pending units in any order, with any answers, and
wherever the clock is read it shows any time; that it never goes back is not even asked for. A wait
with a time limit that is too long for the clock stops the run. A step that settles a unit says
so. -/
inductive Step (limit : Nat) : Moment → List Settlement → Moment → Prop
  | dispatch {b : Batch} {clock now : Nat} {u : WorkUnit} {left : List WorkUnit} :
      Step limit ⟨b, clock, .dispatching (u :: left)⟩ []
        ⟨b.dispatch limit now u, now, .dispatching left⟩
  | dispatched {b : Batch} {clock : Nat} :
      Step limit ⟨b, clock, .dispatching []⟩ [] ⟨b, clock, .waiting⟩
  | wait {b : Batch} {clock now : Nat} {reported : List (Flight × Ending)} :
      b.pending ≠ [] → (reported.map Prod.fst).Subperm b.pending →
      (∀ x ∈ reported, x.2 ≠ .timedOut) →
      Step limit ⟨b, clock, .waiting⟩ [] ⟨b, now, .collecting reported⟩
  | overlong {b : Batch} {clock : Nat} {s : Stop} :
      b.stop = none → b.pending ≠ [] → waitStop? b.settings.unitTimeout = some s →
      Step limit ⟨b, clock, .waiting⟩ [] ⟨{ b with stop := some s }, clock, .waiting⟩
  | collect {b : Batch} {clock : Nat} {f : Flight} {e : Ending} {rest : List (Flight × Ending)} :
      Step limit ⟨b, clock, .collecting ((f, e) :: rest)⟩ [⟨f, e, clock⟩]
        ⟨b.answer f.unit.path e, clock, .collecting rest⟩
  | look {b : Batch} {clock now : Nat} :
      Step limit ⟨b, clock, .collecting []⟩ [] ⟨b, now, .checking b.pending⟩
  | expire {b : Batch} {clock : Nat} {f : Flight} {rest : List Flight} :
      Batch.isUp clock f = true →
      Step limit ⟨b, clock, .checking (f :: rest)⟩ [⟨f, .timedOut, clock⟩]
        ⟨b.answer f.unit.path .timedOut, clock, .checking rest⟩
  | keep {b : Batch} {clock : Nat} {f : Flight} {rest : List Flight} :
      Batch.isUp clock f = false →
      Step limit ⟨b, clock, .checking (f :: rest)⟩ [] ⟨b, clock, .checking rest⟩
  | again {b : Batch} {clock : Nat} :
      Step limit ⟨b, clock, .checking []⟩ [] ⟨b, clock, .waiting⟩

/-- A run from one moment to another, with the settlements on the way. -/
inductive Run (limit : Nat) (m : Moment) : List Settlement → Moment → Prop
  | start : Run limit m [] m
  | step {trace more : List Settlement} {n n' : Moment} : Run limit m trace n →
      Step limit n more n' → Run limit m (trace ++ more) n'

theorem Run.trans {limit : Nat} {m n n' : Moment} {trace more : List Settlement}
    (h : Run limit m trace n) (h' : Run limit n more n') : Run limit m (trace ++ more) n' := by
  induction h' with
  | start =>
    rw [List.append_nil]
    exact h
  | step _ hstep ih =>
    rw [← List.append_assoc]
    exact ih.step hstep

theorem Step.run {limit : Nat} {m n : Moment} {trace : List Settlement}
    (h : Step limit m trace n) : Run limit m trace n :=
  Run.start.step h

end Moment

/-! ## What the log says -/

/-- The number of a line in the log. -/
def numbered (total k : Nat) : Text := "[" ++ Text.ofNat k ++ "/" ++ Text.ofInt total ++ "]"

/-- The lines for units that were dispatched. -/
def startedLines (total : Nat) (units : List WorkUnit) : List Text :=
  (units.zipIdx 1).map fun x => numbered total x.2 ++ " Started " ++ x.1.label

/-- What the log says of an outcome. -/
def settledText (o : UnitOutcome) : Text :=
  match o.message with
  | none => " Transpiled " ++ o.label ++ " -> " ++ o.outputFile
  | some m => " Failed " ++ o.label ++ ": " ++ m

/-- The lines for units that were settled. -/
def settledLines (total : Nat) (outcomes : List (Text × UnitOutcome)) : List Text :=
  (outcomes.zipIdx 1).map fun x => numbered total x.2 ++ settledText x.1.2

theorem startedLines_append (total : Nat) (units : List WorkUnit) (u : WorkUnit) :
    startedLines total (units ++ [u]) =
      startedLines total units ++
        [numbered total (units.length + 1) ++ " Started " ++ u.label] := by
  simp [startedLines, List.zipIdx_append, Nat.add_comm]

theorem settledLines_append (total : Nat) (outcomes : List (Text × UnitOutcome))
    (x : Text × UnitOutcome) :
    settledLines total (outcomes ++ [x]) =
      settledLines total outcomes ++ [numbered total (outcomes.length + 1) ++ settledText x.2] := by
  simp [settledLines, List.zipIdx_append, Nat.add_comm]

/-! ## One settlement -/

/-- An outcome is that of a settlement: it is kept under the path of the unit, and a unit that
ended without its script has failed with that ending's message. -/
structure Settlement.Recorded (g : Settings) (s : Settlement) (x : Text × UnitOutcome) : Prop where
  path : x.1 = s.flight.unit.path
  id : x.2.id = s.flight.unit.id
  kind : x.2.kind = s.flight.unit.kind
  label : x.2.label = s.flight.unit.label
  success : x.2.success = x.2.message.isNone
  failure : ∀ f, s.ending.result g.unitTimeout s.flight.unit.id = .error f →
    x.2.message = some f.message

theorem setOutcome_of_fresh {path : Text} {outcomes : List (Text × UnitOutcome)}
    (h : path ∉ outcomes.map Prod.fst) (o : UnitOutcome) :
    setOutcome path o outcomes = outcomes ++ [(path, o)] := by
  induction outcomes with
  | nil => rfl
  | cons x rest ih =>
    obtain ⟨p, old⟩ := x
    simp only [List.map_cons, List.mem_cons, not_or] at h
    rw [setOutcome, if_neg (Ne.symm h.1), ih h.2]
    rfl

theorem keys_of_recorded {g : Settings} {trace : List Settlement}
    {outcomes : List (Text × UnitOutcome)}
    (h : List.Forall₂ (Settlement.Recorded g) trace outcomes) :
    outcomes.map Prod.fst = trace.map (·.flight.unit.path) := by
  induction h with
  | nil => rfl
  | cons hx _ ih => simp [hx.path, ih]

/-- Taking the flight of a path out of those pending takes out just this one. -/
theorem perm_cons_filter {pending : List Flight} {f : Flight}
    (hnodup : (pending.map (·.unit.path)).Nodup) (hf : f ∈ pending) :
    pending.Perm (f :: pending.filter fun f' => f'.unit.path ≠ f.unit.path) := by
  induction pending with
  | nil => cases hf
  | cons a rest ih =>
    rw [List.map_cons, List.nodup_cons] at hnodup
    rcases List.mem_cons.mp hf with rfl | hf
    · have hrest : rest.filter (fun f' => f'.unit.path ≠ f.unit.path) = rest := by
        apply List.filter_eq_self.mpr
        intro f' hf'
        have hne : f'.unit.path ≠ f.unit.path :=
          fun h => hnodup.1 (h ▸ List.mem_map_of_mem hf')
        simpa using hne
      rw [List.filter_cons_of_neg (by simp), hrest]
    · have hne : a.unit.path ≠ f.unit.path := fun h => hnodup.1 (h ▸ List.mem_map_of_mem hf)
      rw [List.filter_cons_of_pos (by simpa using hne)]
      exact ((ih hnodup.2 hf).cons a).trans (.swap f a _)

namespace Batch

/-- A unit that fails and does not stop the batch is recorded with its message. -/
theorem settleFailure_recorded {b : Batch} {u : WorkUnit} {f : UnitFailure}
    (h : (b.settleFailure u f).stop = none) :
    ∃ disk file,
      b.settleFailure u f = ({ b with disk } : Batch).record u file (some f.message) := by
  unfold settleFailure at h ⊢
  cases hfile : logFile b.settings u with
  | error s => simp [hfile] at h
  | ok file =>
    simp only [hfile] at h ⊢
    generalize b.disk.writeText (Path.joined b.home file) (errorLog u f) = w at h ⊢
    obtain ⟨disk, r⟩ := w
    cases r with
    | ok a => exact ⟨disk, file, rfl⟩
    | error e =>
      cases hstop : e.stop? with
      | some s => simp [hstop] at h
      | none => exact ⟨disk, file, by simp only [hstop]⟩

/-- A settlement that does not stop the batch records its unit. -/
theorem settle_recorded {b : Batch} {u : WorkUnit} {e : Ending} (hrunning : b.stop = none)
    (h : (b.settle u e).stop = none) :
    ∃ disk file message, b.settle u e = ({ b with disk } : Batch).record u file message ∧
      ∀ f, e.result b.settings.unitTimeout u.id = .error f → message = some f.message := by
  unfold settle at h ⊢
  rw [if_neg (by simp [hrunning])] at h ⊢
  cases hresult : e.result b.settings.unitTimeout u.id with
  | error f =>
    simp only [hresult] at h ⊢
    obtain ⟨disk, file, hrecord⟩ := settleFailure_recorded h
    refine ⟨disk, file, _, hrecord, ?_⟩
    intro f' hf'
    cases hf'
    rfl
  | ok source =>
    simp only [hresult, settleScript] at h ⊢
    generalize b.disk.writeText (Path.joined b.home u.path) source = w at h ⊢
    obtain ⟨disk, r⟩ := w
    cases r with
    | ok a => exact ⟨disk, u.path, none, rfl, by simp⟩
    | error refusal =>
      cases hstop : refusal.stop? with
      | some s => simp [hstop] at h
      | none =>
        simp only [hstop] at h ⊢
        obtain ⟨disk', file, hrecord⟩ := settleFailure_recorded h
        exact ⟨disk', file, _, hrecord, by simp⟩

theorem stop_of_answer {b : Batch} {path : Text} {e : Ending}
    (h : (b.answer path e).stop = none) : b.stop = none := by
  cases hstop : b.stop with
  | none => rfl
  | some s =>
    rw [stop_answer hstop] at h
    cases h

theorem find_pending {b : Batch} {f : Flight} (hnodup : (b.pending.map (·.unit.path)).Nodup)
    (hf : f ∈ b.pending) : b.pending.find? (fun f' => f'.unit.path = f.unit.path) = some f := by
  obtain ⟨f', hf'⟩ : ∃ f', b.pending.find? (fun f' => f'.unit.path = f.unit.path) = some f' := by
    rw [← Option.isSome_iff_exists, List.find?_isSome]
    exact ⟨f, hf, by simp⟩
  have hpath : f'.unit.path = f.unit.path := by simpa using List.find?_some hf'
  rw [hf', List.inj_on_of_nodup_map hnodup (List.mem_of_find?_eq_some hf') hf hpath]

/-- An answer to a unit in flight settles it. -/
theorem core_answer {b : Batch} {f : Flight} (hnodup : (b.pending.map (·.unit.path)).Nodup)
    (hf : f ∈ b.pending) (e : Ending) :
    (b.answer f.unit.path e).core = (b.settle f.unit e).core := by
  unfold answer
  rw [find_pending hnodup hf, core_settle, core_settle b]
  rfl

/-- An answer to a unit in flight takes it from the pending ones and records it. -/
theorem answer_recorded {b : Batch} {f : Flight} (hnodup : (b.pending.map (·.unit.path)).Nodup)
    (hf : f ∈ b.pending) {e : Ending} (hstop : (b.answer f.unit.path e).stop = none) :
    ∃ rest disk file message, b.pending.Perm (f :: rest) ∧
      b.answer f.unit.path e =
        ({ b with pending := rest, disk } : Batch).record f.unit file message ∧
      ∀ failure, e.result b.settings.unitTimeout f.unit.id = .error failure →
        message = some failure.message := by
  have hrunning := stop_of_answer hstop
  unfold answer at hstop ⊢
  rw [find_pending hnodup hf] at hstop ⊢
  obtain ⟨disk, file, message, hrecord, hfailure⟩ := settle_recorded
    (b := { b with pending := b.pending.filter fun f' => f'.unit.path ≠ f.unit.path })
    hrunning hstop
  exact ⟨_, disk, file, message, perm_cons_filter hnodup hf, hrecord, hfailure⟩

end Batch

/-! ## The invariant of a run -/

/-- The units that a stage has before it are pending ones. -/
def Stage.Fits (pending : List Flight) : Stage → Prop
  | .collecting reported =>
    (reported.map Prod.fst).Subperm pending ∧ ∀ x ∈ reported, x.2 ≠ .timedOut
  | .checking listed => listed.Subperm pending
  | _ => True

/-- A settlement by time is one of a unit that had a deadline, and had it no later than the clock
then was. -/
def Settlement.InTime (g : Settings) (s : Settlement) : Prop :=
  s.ending = .timedOut →
    g.unitTimeout ≠ .null ∧ ∃ t, s.flight.deadline = some t ∧ t ≤ s.clock

/-- What holds of a moment once the units `gone` were dispatched and `trace` was settled. -/
structure Moment.Sound (g : Settings) (units gone : List WorkUnit) (before : List Text)
    (trace : List Settlement) (m : Moment) : Prop where
  settings : m.batch.settings = g
  total : m.batch.report.total = units.length
  sent : units = gone ++ m.stage.left
  started : m.batch.report.started = gone.length
  processed : m.batch.report.processed = trace.length
  /-- Every unit that was dispatched is in flight or settled, and not both. -/
  parted : (m.batch.pending.map (·.unit) ++ trace.map (·.flight.unit)).Perm gone
  recorded : List.Forall₂ (Settlement.Recorded g) trace m.batch.report.outcomes
  unsettled : m.stage.left ≠ [] → trace = []
  log : m.batch.log = before ++ startedLines units.length gone
    ++ settledLines units.length m.batch.report.outcomes
  limited : ∀ f ∈ m.batch.pending, f.deadline.isSome → g.unitTimeout ≠ .null
  inTime : ∀ s ∈ trace, s.InTime g
  fits : m.stage.Fits m.batch.pending

namespace Moment

section Step

variable {g : Settings} {units gone : List WorkUnit} {before : List Text}
  {trace : List Settlement} {b : Batch} {clock : Nat} {stage : Stage}

/-- A stage that has no unit to dispatch gives way to another. -/
theorem Sound.move (h : Sound g units gone before trace ⟨b, clock, stage⟩) (next : Stage)
    (hleft : stage.left = next.left) (hfits : next.Fits b.pending) (now : Nat) :
    Sound g units gone before trace ⟨b, now, next⟩ :=
  { h with
    sent := by
      have hsent := h.sent
      simpa only [hleft] using hsent
    unsettled := by
      have hunsettled := h.unsettled
      simpa only [hleft] using hunsettled
    fits := hfits }

theorem Sound.dispatch {limit now : Nat} {u : WorkUnit} {left : List WorkUnit}
    (h : Sound g units gone before trace ⟨b, clock, .dispatching (u :: left)⟩)
    (hstop : (b.dispatch limit now u).stop = none) :
    Sound g units (gone ++ [u]) before trace
      ⟨b.dispatch limit now u, now, .dispatching left⟩ := by
  have htrace : trace = [] := h.unsettled (by simp [Stage.left])
  subst htrace
  have houtcomes : b.report.outcomes = [] := List.forall₂_nil_left_iff.mp h.recorded
  have hsettings : b.settings = g := h.settings
  have hstarted : b.report.started = gone.length := h.started
  have htotal : b.report.total = units.length := h.total
  have hline : b.log ++ [({ b with report := b.report.start } : Batch).place (b.report.started + 1)
      ++ " Started " ++ u.label] = before ++ startedLines units.length (gone ++ [u])
        ++ settledLines units.length b.report.outcomes := by
    have hlog : b.log = before ++ startedLines units.length gone
      ++ settledLines units.length b.report.outcomes := h.log
    rw [startedLines_append, hlog, houtcomes, hstarted]
    simp [settledLines, Batch.place, numbered, htotal, Report.start]
  -- all that is left open is the deadline of the new flight
  have hsound : ∀ deadline, (deadline.isSome = true → g.unitTimeout ≠ .null) →
      Sound g units (gone ++ [u]) before []
        ⟨{ ({ b with report := b.report.start } : Batch).say
            (({ b with report := b.report.start } : Batch).place (b.report.started + 1)
              ++ " Started " ++ u.label) with
            pending := b.pending ++ [{ unit := u, deadline }] }, now, .dispatching left⟩ := by
    intro deadline hdeadline
    refine ⟨hsettings, htotal, ?_, ?_, h.processed, ?_, h.recorded, fun _ => rfl, hline, ?_,
      h.inTime, trivial⟩
    · rw [List.append_assoc]
      exact h.sent
    · simp [Batch.say, Report.start, hstarted]
    · have hparted : (b.pending.map (·.unit)).Perm gone := by simpa using h.parted
      simpa using hparted.append_right [u]
    · intro f hf
      rcases List.mem_append.mp hf with hf | hf
      · exact h.limited f hf
      · rw [List.mem_singleton.mp hf]
        exact hdeadline
  unfold Batch.dispatch at hstop ⊢
  by_cases hrunning : b.stop.isSome = true
  · rw [if_pos hrunning] at hstop
    simp [hstop] at hrunning
  · rw [if_neg hrunning] at hstop ⊢
    simp only [Batch.say] at hstop ⊢
    cases htimeout : b.settings.unitTimeout with
    | null => exact hsound none (by simp)
    | _ =>
      simp only [htimeout] at hstop ⊢
      split at hstop
      · cases hstop
      · rename_i hrange
        rw [if_neg hrange]
        exact hsound _ (fun _ => by simp [← hsettings, htimeout])

/-- The paths of the units in flight and of those settled are all different. -/
theorem Sound.nodup (h : Sound g units gone before trace ⟨b, clock, stage⟩)
    (hnodup : (units.map WorkUnit.path).Nodup) :
    (b.pending.map (·.unit.path) ++ trace.map (·.flight.unit.path)).Nodup := by
  have hgone : (gone.map WorkUnit.path).Nodup := by
    rw [h.sent, List.map_append] at hnodup
    exact (List.nodup_append.mp hnodup).1
  have hperm := h.parted.map WorkUnit.path
  simp only [List.map_append, List.map_map] at hperm
  exact hperm.nodup_iff.mpr hgone

/-- A unit in flight that is answered, by its worker or by the clock, goes from the pending ones
to the settled ones. -/
theorem Sound.answer (h : Sound g units gone before trace ⟨b, clock, stage⟩)
    (hnodup : (units.map WorkUnit.path).Nodup) {f : Flight} (hf : f ∈ b.pending) {e : Ending}
    (hstop : (b.answer f.unit.path e).stop = none)
    (hinTime : Settlement.InTime g ⟨f, e, clock⟩) {next : Stage} (hleft : stage.left = [])
    (hnext : next.left = [])
    (hfits : ∀ rest : List Flight, b.pending.Perm (f :: rest) → next.Fits rest) :
    Sound g units gone before (trace ++ [⟨f, e, clock⟩])
      ⟨b.answer f.unit.path e, clock, next⟩ := by
  have hpaths := h.nodup hnodup
  have hpending := (List.nodup_append.mp hpaths).1
  obtain ⟨rest, disk, file, message, hperm, hanswer, hfailure⟩ :=
    Batch.answer_recorded hpending hf hstop
  rw [hanswer]
  have hsettings : b.settings = g := h.settings
  have htotal : b.report.total = units.length := h.total
  have hprocessed : b.report.processed = trace.length := h.processed
  have hlength : trace.length = b.report.outcomes.length := h.recorded.length_eq
  have hfresh : f.unit.path ∉ b.report.outcomes.map Prod.fst := by
    rw [keys_of_recorded h.recorded]
    intro hmem
    exact (List.nodup_append.mp hpaths).2.2 _ (List.mem_map_of_mem hf) _ hmem rfl
  have houtcomes := setOutcome_of_fresh hfresh
    { id := f.unit.id, kind := f.unit.kind, label := f.unit.label, success := message.isNone
      outputFile := file, message }
  refine ⟨hsettings, htotal, ?_, h.started, ?_, ?_, ?_, ?_, ?_, ?_, ?_, hfits rest hperm⟩
  · rw [hnext]
    have hsent := h.sent
    simpa only [hleft] using hsent
  · simp [Batch.record, Batch.say, Report.add, hprocessed]
  · have hunits := (hperm.map (·.unit)).append_right (trace.map (·.flight.unit))
    refine List.Perm.trans ?_ (hunits.symm.trans h.parted)
    simp only [Batch.record, Batch.say, List.map_append, List.map_cons, List.map_nil,
      ← List.append_assoc]
    exact List.perm_append_comm
  · simp only [Batch.record, Batch.say, Report.add]
    rw [houtcomes]
    refine List.rel_append h.recorded (.cons ⟨rfl, rfl, rfl, rfl, rfl, ?_⟩ .nil)
    rw [← hsettings]
    exact hfailure
  · simp [hnext]
  · have hlog : b.log = before ++ startedLines units.length gone
      ++ settledLines units.length b.report.outcomes := h.log
    simp only [Batch.record, Batch.say, Report.add]
    rw [houtcomes, settledLines_append, hlog, hprocessed, hlength, List.append_assoc _ _ [_]]
    cases message <;> simp only [Batch.place, numbered, settledText, htotal]
  · intro f' hf'
    exact h.limited f' (hperm.mem_iff.mpr (List.mem_cons_of_mem _ hf'))
  · intro s hs
    rcases List.mem_append.mp hs with hs | hs
    · exact h.inTime s hs
    · rw [List.mem_singleton.mp hs]
      exact hinTime

/-- The invariant is kept by every step that does not stop the batch. -/
theorem Sound.step {limit : Nat} {m n : Moment} {more : List Settlement}
    (h : Sound g units gone before trace m) (hnodup : (units.map WorkUnit.path).Nodup)
    (hstep : Step limit m more n) (hstop : n.batch.stop = none) :
    ∃ gone', Sound g units gone' before (trace ++ more) n := by
  cases hstep with
  | dispatch =>
    rw [List.append_nil]
    exact ⟨_, h.dispatch hstop⟩
  | dispatched =>
    rw [List.append_nil]
    exact ⟨gone, h.move .waiting rfl trivial _⟩
  | wait hpending hreported hanswers =>
    rw [List.append_nil]
    exact ⟨gone, h.move (.collecting _) rfl ⟨hreported, hanswers⟩ _⟩
  | overlong _ _ _ => cases hstop
  | @collect b clock f e rest =>
    obtain ⟨hsub, hanswers⟩ := h.fits
    have hf : f ∈ b.pending := hsub.subset List.mem_cons_self
    refine ⟨gone, h.answer hnodup hf hstop ?_ rfl rfl ?_⟩
    · intro htimedOut
      exact absurd htimedOut (hanswers (f, e) List.mem_cons_self)
    · intro others hperm
      refine ⟨?_, fun x hx => hanswers x (List.mem_cons_of_mem _ hx)⟩
      exact (List.subperm_cons f).mp (hsub.trans hperm.subperm)
  | look =>
    rw [List.append_nil]
    exact ⟨gone, h.move (.checking _) rfl (List.Subperm.refl _) _⟩
  | @expire b clock f rest hup =>
    have hsub : (f :: rest).Subperm b.pending := h.fits
    have hf : f ∈ b.pending := hsub.subset List.mem_cons_self
    refine ⟨gone, h.answer hnodup hf hstop ?_ rfl rfl ?_⟩
    · intro _
      unfold Batch.isUp at hup
      cases hdeadline : f.deadline with
      | none => simp [hdeadline] at hup
      | some t =>
        have hlimited := h.limited f hf (by simp [hdeadline])
        exact ⟨hlimited, t, rfl, by simpa [hdeadline] using hup⟩
    · intro others hperm
      exact (List.subperm_cons f).mp (hsub.trans hperm.subperm)
  | @keep b clock f rest hup =>
    rw [List.append_nil]
    have hsub : (f :: rest).Subperm b.pending := h.fits
    have hrest : rest.Subperm b.pending := (List.sublist_cons_self f rest).subperm.trans hsub
    exact ⟨gone, h.move (.checking rest) rfl hrest _⟩
  | again =>
    rw [List.append_nil]
    exact ⟨gone, h.move .waiting rfl trivial _⟩

theorem stop_of_step {limit : Nat} {m n : Moment} {more : List Settlement}
    (h : Step limit m more n) (hstop : n.batch.stop = none) : m.batch.stop = none := by
  cases h with
  | @dispatch b clock now u left =>
    cases hrunning : b.stop with
    | none => rfl
    | some s => simp [Batch.dispatch, hrunning] at hstop
  | overlong hrunning _ _ => exact hrunning
  | collect => exact Batch.stop_of_answer hstop
  | expire hup => exact Batch.stop_of_answer hstop
  | _ => exact hstop

/-- What a whole run keeps, by induction on its steps. -/
theorem Sound.run {limit : Nat} {m n : Moment} {trace : List Settlement}
    (h : Sound g units [] before [] m) (hnodup : (units.map WorkUnit.path).Nodup)
    (hrun : Run limit m trace n) (hstop : n.batch.stop = none) :
    ∃ gone, Sound g units gone before trace n := by
  induction hrun with
  | start => exact ⟨[], h⟩
  | step hrun hstep ih =>
    obtain ⟨gone, hsound⟩ := ih (stop_of_step hstep hstop)
    exact hsound.step hnodup hstep hstop

end Step

end Moment

theorem sound_begun (g : Settings) (home : Text) (disk : Disk) (units : List WorkUnit)
    (clock : Nat) :
    Moment.Sound g units [] ["Transpiling " ++ Text.ofNat units.length ++ " unit(s)"] []
      ⟨begun g home disk units, clock, .dispatching units⟩ :=
  { settings := rfl, total := rfl, sent := rfl, started := rfl, processed := rfl, parted := .refl _
    recorded := .nil, unsettled := fun _ => rfl, log := rfl, limited := by simp [begun, Batch.say]
    inTime := by simp, fits := trivial }

theorem length_succeeded_add_failed (r : Report) :
    r.succeeded.length + r.failed.length = r.outcomes.length := by
  simp only [Report.succeeded, Report.failed, Report.all, List.length_map]
  rw [← List.length_eq_length_filter_add, List.length_map]

/-! ## Runs of the program -/

namespace Moment

variable (limit clock : Nat)

theorem run_collect (b : Batch) (reported : List (Flight × Ending)) :
    ∃ trace, trace.map Settlement.pair = reported.map (fun x => (x.1.unit, x.2)) ∧
      Run limit ⟨b, clock, .collecting reported⟩ trace
        ⟨(reported.map fun x => (x.1.unit.path, x.2)).foldl (fun b e => b.answer e.1 e.2) b,
          clock, .collecting []⟩ := by
  induction reported generalizing b with
  | nil => exact ⟨[], rfl, .start⟩
  | cons x rest ih =>
    obtain ⟨trace, hpairs, hrest⟩ := ih (b.answer x.1.unit.path x.2)
    exact ⟨_, by simp [hpairs, Settlement.pair], Step.collect.run.trans hrest⟩

theorem run_check (b : Batch) (listed : List Flight) :
    ∃ trace, trace.map Settlement.pair
        = (listed.filter (Batch.isUp clock)).map (fun f => (f.unit, .timedOut)) ∧
      Run limit ⟨b, clock, .checking listed⟩ trace
        ⟨(listed.filter (Batch.isUp clock)).foldl (fun b f => b.answer f.unit.path .timedOut) b,
          clock, .checking []⟩ := by
  induction listed generalizing b with
  | nil => exact ⟨[], rfl, .start⟩
  | cons f rest ih =>
    cases hup : Batch.isUp clock f with
    | true =>
      obtain ⟨trace, hpairs, hrest⟩ := ih (b.answer f.unit.path .timedOut)
      rw [List.filter_cons_of_pos hup]
      exact ⟨_, by simp [hpairs, Settlement.pair], (Step.expire hup).run.trans hrest⟩
    | false =>
      obtain ⟨trace, hpairs, hrest⟩ := ih b
      rw [List.filter_cons_of_neg (by simp [hup])]
      exact ⟨_, by simp [hpairs], (Step.keep hup).run.trans hrest⟩

/-- A turn of waiting is a run. -/
theorem run_turn {b : Batch} (hpending : b.pending ≠ []) {reported : List (Flight × Ending)}
    (hreported : (reported.map Prod.fst).Subperm b.pending)
    (hanswers : ∀ x ∈ reported, x.2 ≠ .timedOut) (now : Nat) :
    let endings := reported.map fun x => (x.1.unit.path, x.2)
    let answered := endings.foldl (fun b e => b.answer e.1 e.2) b
    ∃ trace, trace.map Settlement.pair = reported.map (fun x => (x.1.unit, x.2)) ++
        (answered.pending.filter (Batch.isUp now)).map (fun f => (f.unit, .timedOut)) ∧
      Run limit ⟨b, clock, .waiting⟩ trace ⟨b.turn ⟨endings, now⟩, now, .waiting⟩ := by
  intro endings answered
  obtain ⟨trace, hcollected, hcollect⟩ := run_collect limit clock b reported
  obtain ⟨trace', hchecked, hcheck⟩ := run_check limit now answered answered.pending
  have hwait : Run limit ⟨b, clock, .waiting⟩ [] ⟨b, clock, .collecting reported⟩ :=
    (Step.wait hpending hreported hanswers).run
  exact ⟨_, by simp [hcollected, hchecked],
    ((hwait.trans hcollect).step .look).trans (hcheck.step .again)⟩

theorem run_dispatchAll (b : Batch) (now : Nat) (units : List WorkUnit) :
    ∃ clock', Run limit ⟨b, clock, .dispatching units⟩ []
      ⟨b.dispatchAll limit now units, clock', .waiting⟩ := by
  induction units generalizing b clock now with
  | nil => exact ⟨clock, Step.dispatched.run⟩
  | cons u rest ih =>
    obtain ⟨clock', hrest⟩ := ih now (b.dispatch limit now u) (now + 1)
    exact ⟨clock', Step.dispatch.run.trans hrest⟩

theorem run_await {worker : Worker} (hworker : ∀ u, worker u ≠ some .timedOut) {b : Batch}
    {g : Settings} {stuck : List Flight} {now : Nat} {units : List WorkUnit}
    (h : b.Awaits g stuck now units) :
    ∃ trace clock', trace.map Settlement.pair = g.endings worker units ∧
      Run limit ⟨b, clock, .waiting⟩ trace
        ⟨b.await (Batch.turns worker now units), clock', .waiting⟩ := by
  induction units generalizing b clock stuck now with
  | nil => exact ⟨[], clock, rfl, .start⟩
  | cons u rest ih =>
    obtain ⟨trace', clock', hpairs', hrest⟩ := ih (now + limitTicks) (h.turn worker).1
    let f : Flight := { unit := u, deadline := Batch.deadline g now }
    have hmem : f ∈ b.pending := by
      rw [h.pending, Batch.flights_cons]
      exact List.mem_append_right _ List.mem_cons_self
    have hreported :
        (((worker u).toList.map fun e => (f, e)).map Prod.fst).Subperm b.pending := by
      cases worker u with
      | none => exact List.nil_subperm
      | some e => exact List.singleton_subperm_iff.mpr hmem
    have hanswers : ∀ x ∈ (worker u).toList.map fun e => (f, e), x.2 ≠ .timedOut := by
      intro x hx htimedOut
      obtain ⟨e, he, rfl⟩ := List.mem_map.mp hx
      exact hworker u (by rw [← htimedOut]; simpa using he)
    obtain ⟨trace, hpairs, hturn⟩ := run_turn limit clock (List.ne_nil_of_mem hmem) hreported
      hanswers (now + limitTicks)
    rw [List.map_map] at hturn
    refine ⟨_, clock', ?_, hturn.trans hrest⟩
    rw [List.map_append, hpairs, hpairs', List.map_map, List.map_map, g.endings_cons]
    exact congrArg (· ++ g.endings worker rest) (h.settled worker)

/-- Dispatching and awaiting units, as the program does, is such a run. -/
theorem run_work {worker : Worker} (hworker : ∀ u, worker u ≠ some .timedOut) {b : Batch}
    (hrunning : b.stop = none) (hpending : b.pending = []) {units : List WorkUnit}
    (hwait : units ≠ [] → Batch.canWait b.settings.unitTimeout = true)
    (hnodup : (units.map WorkUnit.path).Nodup) :
    ∃ trace clock', trace.map Settlement.pair = b.settings.endings worker units ∧
      Run limitTicks ⟨b, clock, .dispatching units⟩ trace
        ⟨b.work worker units, clock', .waiting⟩ := by
  obtain ⟨hawaits, -, hwork⟩ := Batch.work_awaits hrunning hpending hwait worker hnodup
  obtain ⟨now, hdispatch⟩ := run_dispatchAll limitTicks clock b 0 units
  obtain ⟨trace, clock', hpairs, hawait⟩ := run_await limitTicks now hworker hawaits
  rw [hwork]
  exact ⟨trace, clock', hpairs, hdispatch.trans hawait⟩

end Moment

/-- However the workers answer and whatever the clock shows, a run that is not stopped settles no
unit twice, by an answer and by time or otherwise. At every moment the units are those to be
dispatched, those pending and those settled, the outcomes are those of the settlements in their
order, and only a unit whose deadline was past has run out of time. In the end every unit is
settled, and the log has a numbered line for each unit that was started and then one for each that
was settled. -/
theorem every_unit_settles_once (g : Settings) (manifest : List (Text × Json))
    (units : List WorkUnit) (home : Text) (disk : Disk) (limit clock : Nat)
    (trace : List Settlement) (m : Moment) (hunits : collectUnits g manifest = .ok units)
    (hrun : Moment.Run limit ⟨begun g home disk units, clock, .dispatching units⟩ trace m)
    (hstop : m.batch.stop = none) :
    let r := m.batch.report
    (trace.map (·.flight.unit.path)).Nodup ∧
    (∀ s ∈ trace, s.flight.unit ∈ units) ∧
    r.processed + m.batch.pending.length + m.stage.left.length = units.length ∧
    r.total = units.length ∧
    r.processed = trace.length ∧
    List.Forall₂ (Settlement.Recorded g) trace r.outcomes ∧
    r.outcomes.map Prod.fst = trace.map (·.flight.unit.path) ∧
    (∀ s ∈ trace, s.ending = .timedOut →
      g.unitTimeout ≠ .null ∧ ∃ t, s.flight.deadline = some t ∧ t ≤ s.clock) ∧
    (m.stage = .waiting → m.batch.pending = [] →
      (trace.map (·.flight.unit)).Perm units ∧
      r.started = units.length ∧ r.processed = units.length ∧ r.outcomes.length = units.length ∧
      r.succeeded.length + r.failed.length = units.length ∧
      m.batch.log = ["Transpiling " ++ Text.ofNat units.length ++ " unit(s)"]
        ++ startedLines units.length units ++ settledLines units.length r.outcomes) := by
  intro r
  obtain ⟨hnodup, -⟩ := nodup_paths hunits
  obtain ⟨gone, hsound⟩ := (sound_begun g home disk units clock).run hnodup hrun hstop
  have hlength := hsound.parted.length_eq
  have hprocessed : r.processed = trace.length := hsound.processed
  have hsent := congrArg List.length hsound.sent
  simp only [List.length_append, List.length_map] at hlength hsent
  have houtcomes : trace.length = r.outcomes.length := hsound.recorded.length_eq
  refine ⟨(List.nodup_append.mp (hsound.nodup hnodup)).2.1, ?_, by omega, hsound.total, hprocessed,
    hsound.recorded, keys_of_recorded hsound.recorded, hsound.inTime, ?_⟩
  · intro s hs
    have hgone : s.flight.unit ∈ gone :=
      hsound.parted.mem_iff.mp (List.mem_append_right _ (List.mem_map_of_mem hs))
    rw [hsound.sent]
    exact List.mem_append_left _ hgone
  · intro hwaiting hpending
    have hgone : units = gone := by
      have hsent := hsound.sent
      simpa [hwaiting, Stage.left] using hsent
    subst hgone
    have hparted := hsound.parted
    rw [hpending] at hparted hlength
    simp only [List.length_nil, Nat.zero_add] at hlength
    refine ⟨hparted, hsound.started, by omega, by omega, ?_, hsound.log⟩
    rw [length_succeeded_add_failed]
    omega

/-- Of two units one is answered in the very turn in which the other runs out of time. -/
theorem one_answers_as_the_other_runs_out :
    let object (id : Text) : Json := .obj [("id", .str id), ("script", .str "[]")]
    let manifest : List (Text × Json) := [("objects", .arr [object "a", object "b"])]
    let g : Settings := { unitTimeout := .int 5 }
    let u : WorkUnit := { id := "a", name := "a", script := "[]", path := "script/a.js" }
    let v : WorkUnit := { id := "b", name := "b", script := "[]", path := "script/b.js" }
    let d : Disk := { items := [(["p"], .directory), (["p", "script"], .directory)] }
    collectUnits g manifest = .ok [u, v] ∧
    ∃ trace m, Moment.Run 5 ⟨begun g "/p" d [u, v], 0, .dispatching [u, v]⟩ trace m ∧
      m.batch.stop = none ∧ m.batch.pending = [] ∧
      trace.map (·.flight.unit.path) = ["script/b.js", "script/a.js"] ∧
      m.batch.report.started = 2 ∧ m.batch.report.processed = 2 ∧
      m.batch.report.succeeded.length + m.batch.report.failed.length = 2 := by
  intro object manifest g u v d
  have hunits : collectUnits g manifest = .ok [u, v] := by rfl
  obtain ⟨now, hdispatch⟩ := Moment.run_dispatchAll 5 0 (begun g "/p" d [u, v]) 0 [u, v]
  have hpending : ((begun g "/p" d [u, v]).dispatchAll 5 0 [u, v]).pending
      = [⟨u, some 5⟩, ⟨v, some 6⟩] := by rfl
  have hreported : ([(⟨v, some 6⟩, .script "run();")] : List (Flight × Ending)).map Prod.fst
      |>.Subperm ((begun g "/p" d [u, v]).dispatchAll 5 0 [u, v]).pending := by
    rw [hpending]
    exact List.singleton_subperm_iff.mpr (by simp)
  obtain ⟨trace, -, hturn⟩ := Moment.run_turn 5 now (by simp [hpending]) hreported (by simp) 10
  have hrun := hdispatch.trans hturn
  have hstop := Option.isNone_iff_eq_none.mp (show
    (((begun g "/p" d [u, v]).dispatchAll 5 0 [u, v]).turn
      ⟨[(v.path, .script "run();")], 10⟩).stop.isNone = true by decide +kernel)
  have hend := List.isEmpty_iff.mp (show
    (((begun g "/p" d [u, v]).dispatchAll 5 0 [u, v]).turn
      ⟨[(v.path, .script "run();")], 10⟩).pending.isEmpty = true by decide +kernel)
  obtain ⟨-, -, -, -, -, -, hkeys, -, hended⟩ :=
    every_unit_settles_once g manifest [u, v] "/p" d 5 0 _ _ hunits hrun hstop
  obtain ⟨-, hstarted, hprocessed, -, htotal, -⟩ := hended rfl hend
  refine ⟨hunits, _, _, hrun, hstop, hend, ?_, hstarted, hprocessed, htotal⟩
  rw [← hkeys]
  decide +kernel

end BlockScript
