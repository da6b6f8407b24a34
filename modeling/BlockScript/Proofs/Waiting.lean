-- Waiting for units. Turn by turn each dispatched unit ends, with the answer of
-- its worker or when its time is up, so that waiting for all units comes to
-- settling them one after the other.
import BlockScript.Proofs.Settlement

namespace BlockScript

/-! ## How units end -/

/-- How the work on a unit ends under the settings, if it ever does: with the answer of its worker,
or when its time is up. -/
def Settings.ending? (g : Settings) (worker : Worker) (u : WorkUnit) : Option Ending :=
  match worker u, g.unitTimeout with
  | some e, _ => some e
  | none, .null => none
  | none, _ => some .timedOut

/-- The units that end, in their order, each with its ending. -/
def Settings.endings (g : Settings) (worker : Worker) (units : List WorkUnit) :
    List (WorkUnit × Ending) :=
  units.filterMap fun u => (g.ending? worker u).map fun e => (u, e)

theorem Settings.endings_cons (g : Settings) (worker : Worker) (u : WorkUnit)
    (units : List WorkUnit) :
    g.endings worker (u :: units) = g.endings worker [u] ++ g.endings worker units := by
  rw [Settings.endings, Settings.endings, Settings.endings, ← List.filterMap_append]
  rfl

namespace Batch

theorem settleFailure_eq (b : Batch) (u : WorkUnit) (f : UnitFailure) :
    b.settleFailure u f =
      { b.core.settleFailure u f with
        log := (b.settleFailure u f).log, pending := b.pending } := by
  unfold settleFailure
  rw [show b.core.settings = b.settings from rfl]
  cases logFile b.settings u with
  | error s => rfl
  | ok file =>
    simp only [core]
    obtain ⟨disk, r⟩ := b.disk.writeText (Path.joined b.home file) (errorLog u f)
    cases r with
    | ok a => rfl
    | error refusal => cases refusal <;> rfl

/-- Settling looks neither at the log nor at the units that are pending. -/
theorem settle_eq (b : Batch) (u : WorkUnit) (e : Ending) :
    b.settle u e = { b.core.settle u e with log := (b.settle u e).log, pending := b.pending } := by
  unfold settle
  rw [show b.core.stop = b.stop from rfl, show b.core.settings = b.settings from rfl]
  cases b.stop with
  | some s => rfl
  | none =>
    cases e.result b.settings.unitTimeout u.id with
    | error f => exact settleFailure_eq b u f
    | ok source =>
      simp only [settleScript, core]
      obtain ⟨disk, r⟩ := b.disk.writeText (Path.joined b.home u.path) source
      cases r with
      | ok a => rfl
      | error refusal =>
        cases refusal with
        | refused cause path => exact settleFailure_eq _ u _
        | brokenOff cause => exact settleFailure_eq _ u _
        | nullByte => rfl
        | unencodable e => rfl

theorem core_settle (b : Batch) (u : WorkUnit) (e : Ending) :
    (b.settle u e).core = (b.core.settle u e).core := by
  rw [settle_eq]
  rfl

theorem pending_settle (b : Batch) (u : WorkUnit) (e : Ending) :
    (b.settle u e).pending = b.pending := by
  rw [settle_eq]

theorem core_settleAll {b b' : Batch} (h : b.core = b'.core) (ends : List (WorkUnit × Ending)) :
    (b.settleAll ends).core = (b'.settleAll ends).core := by
  induction ends generalizing b b' with
  | nil => exact h
  | cons x rest ih =>
    apply ih
    rw [core_settle, core_settle b', h]

/-! ## Turns -/

/-- When the time of a unit that is dispatched at `now` is up. -/
def deadline (g : Settings) (now : Nat) : Option Nat :=
  match g.unitTimeout with
  | .null => none
  | _ => some (now + limitTicks)

/-- Units as they are dispatched from a time of the clock on. -/
def flights (g : Settings) (now : Nat) (units : List WorkUnit) : List Flight :=
  (units.zipIdx now).map fun x => { unit := x.1, deadline := deadline g x.2 }

/-- The units that never end, as they are pending for ever. -/
def idle (g : Settings) (worker : Worker) (units : List WorkUnit) : List Flight :=
  (units.filter fun u => (g.ending? worker u).isNone).map fun u => { unit := u, deadline := none }

/-- The turns in which units end from a time of the clock on. -/
def turns (worker : Worker) (now : Nat) (units : List WorkUnit) : List Turn :=
  (units.zipIdx now).map fun x =>
    { endings := (worker x.1).toList.map fun e => (x.1.path, e), now := x.2 + limitTicks }

/-- A batch that waits for units from a time on. There may be other units, of other paths, that it
waits for in vain. -/
structure Awaits (b : Batch) (g : Settings) (stuck : List Flight) (now : Nat)
    (units : List WorkUnit) : Prop where
  pending : b.pending = stuck ++ flights g now units
  endless : ∀ f ∈ stuck, f.deadline = none
  paths : (stuck.map (·.unit.path) ++ units.map WorkUnit.path).Nodup

theorem deadline_of_mem_flights {g : Settings} {now : Nat} {units : List WorkUnit} {f : Flight}
    (h : f ∈ flights g now units) : ∃ t, now ≤ t ∧ f.deadline = deadline g t := by
  obtain ⟨x, hx, rfl⟩ := List.mem_map.mp h
  exact ⟨x.2, (List.mem_zipIdx hx).1, rfl⟩

theorem path_of_mem_flights {g : Settings} {now : Nat} {units : List WorkUnit} {f : Flight}
    (h : f ∈ flights g now units) : f.unit.path ∈ units.map WorkUnit.path := by
  obtain ⟨x, hx, rfl⟩ := List.mem_map.mp h
  exact List.mem_map_of_mem (List.fst_mem_of_mem_zipIdx hx)

theorem expire_of_not_up {b : Batch} {now : Nat} (h : ∀ f ∈ b.pending, isUp now f = false) :
    b.expire now = b := by
  have hnone : b.pending.filter (isUp now) = [] := by
    rw [List.filter_eq_nil_iff]
    intro f hf
    simp [h f hf]
  rw [expire, hnone]
  rfl

section Turn

variable {b : Batch} {g : Settings} {stuck : List Flight} {now : Nat} {u : WorkUnit}
  {units : List WorkUnit}

theorem not_up_of_endless {f : Flight} (h : f.deadline = none) (now : Nat) :
    isUp now f = false := by
  simp [isUp, h]

/-- No unit of a later turn has its time run out in this one. -/
theorem not_up_of_later {f : Flight} (hf : f ∈ flights g (now + 1) units) :
    isUp (now + limitTicks) f = false := by
  obtain ⟨t, ht, hdeadline⟩ := deadline_of_mem_flights hf
  unfold isUp
  rw [hdeadline, deadline]
  split
  · rename_i t' heq
    split at heq
    · cases heq
    · cases heq
      simp only [decide_eq_false_iff_not]
      omega
  · rfl

theorem Awaits.not_up (h : b.Awaits g stuck (now + 1) units) :
    ∀ f ∈ b.pending, isUp (now + limitTicks) f = false := by
  intro f hf
  rw [h.pending] at hf
  rcases List.mem_append.mp hf with hf | hf
  · exact not_up_of_endless (h.endless f hf) _
  · exact not_up_of_later hf

theorem Awaits.answer (h : b.Awaits g stuck now (u :: units)) (e : Ending) :
    (b.answer u.path e).Awaits g stuck (now + 1) units ∧
      (b.answer u.path e).core = (b.settle u e).core := by
  have hpaths := h.paths
  rw [List.nodup_append] at hpaths
  obtain ⟨hstuck, hunits, hapart⟩ := hpaths
  rw [List.map_cons, List.nodup_cons] at hunits
  have hnotStuck : ∀ f ∈ stuck, f.unit.path ≠ u.path := fun f hf =>
    hapart _ (List.mem_map_of_mem hf) _ List.mem_cons_self
  have hnotLater : ∀ f ∈ flights g (now + 1) units, f.unit.path ≠ u.path := by
    intro f hf heq
    exact hunits.1 (heq ▸ path_of_mem_flights hf)
  have hfind : b.pending.find? (fun f => f.unit.path = u.path)
      = some { unit := u, deadline := deadline g now } := by
    rw [h.pending, List.find?_append, List.find?_eq_none.mpr (by simpa using hnotStuck)]
    simp [flights]
  have hfilter : b.pending.filter (fun f => f.unit.path ≠ u.path)
      = stuck ++ flights g (now + 1) units := by
    rw [h.pending, List.filter_append, List.filter_eq_self.mpr (by simpa using hnotStuck)]
    congr 1
    rw [flights, List.zipIdx_cons, List.map_cons, List.filter_cons_of_neg (by simp)]
    exact List.filter_eq_self.mpr fun f hf => by simpa using hnotLater f hf
  unfold Batch.answer
  rw [hfind]
  simp only
  rw [hfilter]
  refine ⟨⟨by rw [pending_settle], h.endless, ?_⟩, ?_⟩
  · rw [List.nodup_append]
    exact ⟨hstuck, hunits.2, fun p hp q hq => hapart p hp q (List.mem_cons_of_mem _ hq)⟩
  · rw [core_settle, core_settle b]
    rfl

theorem flights_cons : flights g now (u :: units)
    = { unit := u, deadline := deadline g now } :: flights g (now + 1) units := rfl

theorem ending_of_silent {worker : Worker} (h : worker u = none) (now : Nat) :
    g.ending? worker u = (deadline g now).map fun _ => .timedOut := by
  unfold Settings.ending? deadline
  rw [h]
  cases g.unitTimeout <;> rfl

/-- Of all pending units only the one whose turn it is has its time run out. -/
theorem Awaits.due (h : b.Awaits g stuck now (u :: units)) {time : Nat}
    (hdeadline : deadline g now = some time) :
    b.pending.filter (isUp (now + limitTicks)) = [{ unit := u, deadline := deadline g now }] := by
  have hup : isUp (now + limitTicks) { unit := u, deadline := deadline g now } = true := by
    unfold deadline at hdeadline ⊢
    split at hdeadline
    · cases hdeadline
    · simp [isUp]
  rw [h.pending, flights_cons, List.filter_append, List.filter_cons_of_pos hup,
    List.filter_eq_nil_iff.mpr fun f hf => by simp [not_up_of_endless (h.endless f hf)],
    List.filter_eq_nil_iff.mpr fun f hf => by simp [not_up_of_later hf]]
  rfl

/-- A unit without a time limit can be waited for in vain. -/
theorem Awaits.stays (h : b.Awaits g stuck now (u :: units)) (hdeadline : deadline g now = none) :
    b.Awaits g (stuck ++ [{ unit := u, deadline := none }]) (now + 1) units := by
  refine ⟨?_, ?_, ?_⟩
  · rw [h.pending, flights_cons, hdeadline]
    simp
  · intro f hf
    rcases List.mem_append.mp hf with hf | hf
    · exact h.endless f hf
    · rw [List.mem_singleton.mp hf]
  · have hpaths := h.paths
    simpa using hpaths

/-- In its turn a unit ends, or it never does. -/
theorem Awaits.turn (h : b.Awaits g stuck now (u :: units)) (worker : Worker) :
    let t : Turn :=
      { endings := (worker u).toList.map fun e => (u.path, e), now := now + limitTicks }
    (b.turn t).Awaits g (stuck ++ idle g worker [u]) (now + 1) units ∧
      (b.turn t).core = (b.settleAll (g.endings worker [u])).core := by
  intro t
  have hended : ∀ e, g.ending? worker u = some e →
      g.endings worker [u] = [(u, e)] ∧ stuck ++ idle g worker [u] = stuck := by
    intro e he
    simp [Settings.endings, idle, he]
  cases hworker : worker u with
  | some e =>
    obtain ⟨hends, hidle⟩ := hended e (by simp [Settings.ending?, hworker])
    obtain ⟨hawaits, hcore⟩ := h.answer e
    have hturn : b.turn t = b.answer u.path e := by
      simp only [Batch.turn, t, hworker, Option.toList_some, List.map_cons, List.map_nil,
        List.foldl_cons, List.foldl_nil]
      exact expire_of_not_up hawaits.not_up
    rw [hturn, hends, hidle]
    exact ⟨hawaits, hcore⟩
  | none =>
    have hturn : b.turn t = b.expire (now + limitTicks) := by
      simp [Batch.turn, t, hworker]
    have hending := ending_of_silent (g := g) hworker now
    cases hdeadline : deadline g now with
    | some time =>
      obtain ⟨hends, hidle⟩ := hended .timedOut (by rw [hending, hdeadline]; rfl)
      obtain ⟨hawaits, hcore⟩ := h.answer .timedOut
      have hexpire : b.expire (now + limitTicks) = b.answer u.path .timedOut := by
        rw [expire, h.due hdeadline]
        rfl
      rw [hturn, hexpire, hends, hidle]
      exact ⟨hawaits, hcore⟩
    | none =>
      have hends : g.endings worker [u] = [] := by
        simp [Settings.endings, hending, hdeadline]
      have hidle : idle g worker [u] = [{ unit := u, deadline := none }] := by
        simp [idle, hending, hdeadline]
      have hawaits := h.stays hdeadline
      rw [hturn, expire_of_not_up hawaits.not_up, hends, hidle]
      exact ⟨hawaits, rfl⟩

/-- What is settled in the turn of a unit: its answer, or else its running out of time. -/
theorem Awaits.settled (h : b.Awaits g stuck now (u :: units)) (worker : Worker) :
    let answered :=
      ((worker u).toList.map fun e => (u.path, e)).foldl (fun b e => b.answer e.1 e.2) b
    (worker u).toList.map (fun e => (u, e)) ++
        (answered.pending.filter (isUp (now + limitTicks))).map (fun f => (f.unit, .timedOut))
      = g.endings worker [u] := by
  intro answered
  have hnone : ∀ {b' : Batch}, (∀ f ∈ b'.pending, isUp (now + limitTicks) f = false) →
      b'.pending.filter (isUp (now + limitTicks)) = [] := by
    intro b' hb'
    rw [List.filter_eq_nil_iff]
    intro f hf
    simp [hb' f hf]
  cases hworker : worker u with
  | some e =>
    have hanswered : answered = b.answer u.path e := by simp [answered, hworker]
    rw [hanswered, hnone (h.answer e).1.not_up]
    simp [Settings.endings, Settings.ending?, hworker]
  | none =>
    have hanswered : answered = b := by simp [answered, hworker]
    have hending := ending_of_silent (g := g) hworker now
    rw [hanswered]
    cases hdeadline : deadline g now with
    | some time => simp [h.due hdeadline, Settings.endings, hending, hdeadline]
    | none => simp [hnone (h.stays hdeadline).not_up, Settings.endings, hending, hdeadline]

/-- Waiting for units settles those that end, in their order, and leaves the others pending. -/
theorem await_turns (h : b.Awaits g stuck now units) (worker : Worker) :
    (b.await (turns worker now units)).core = (b.settleAll (g.endings worker units)).core ∧
      (b.await (turns worker now units)).pending = stuck ++ idle g worker units := by
  induction units generalizing b stuck now with
  | nil => exact ⟨rfl, h.pending⟩
  | cons u rest ih =>
    obtain ⟨hawaits, hcore⟩ := h.turn worker
    have hidle : idle g worker (u :: rest) = idle g worker [u] ++ idle g worker rest := by
      rw [idle, idle, idle, ← List.map_append, ← List.filter_append]
      rfl
    obtain ⟨hrest, hpending⟩ := ih hawaits
    refine ⟨hrest.trans ?_, hpending.trans ?_⟩
    · rw [g.endings_cons, settleAll_append]
      exact core_settleAll hcore _
    · rw [hidle, List.append_assoc]

end Turn

theorem stop_answer {b : Batch} {s : Stop} (h : b.stop = some s) (path : Text) (e : Ending) :
    (b.answer path e).stop = some s := by
  unfold answer
  split
  · exact h
  · simp [settle, h]

/-! ## Dispatch -/

/-- The batch after so many units were dispatched. -/
def started (b : Batch) (n : Nat) : Batch :=
  { b with report := { b.report with started := b.report.started + n } }

/-- A time limit that the clock can keep. -/
def canWait (timeout : Json) : Bool := !outOfRange timeout && (waitStop? timeout).isNone

theorem dispatch_eq {b : Batch} (hrunning : b.stop = none)
    (hrange : outOfRange b.settings.unitTimeout = false) (now : Nat) (u : WorkUnit) :
    ∃ log, b.dispatch limitTicks now u =
      { b.started 1 with log, pending := b.pending ++ flights b.settings now [u] } := by
  have hdeadline :
      flights b.settings now [u] = [{ unit := u, deadline := deadline b.settings now }] := rfl
  unfold dispatch
  rw [if_neg (by simp [hrunning]), hdeadline, deadline]
  simp only [say]
  cases htimeout : b.settings.unitTimeout <;> rw [htimeout] at hrange
  case null => exact ⟨_, rfl⟩
  all_goals
    simp only [hrange, Bool.false_eq_true, if_false]
    exact ⟨_, rfl⟩

theorem dispatchAll_eq {b : Batch} (hrunning : b.stop = none)
    (hrange : outOfRange b.settings.unitTimeout = false) (now : Nat) (units : List WorkUnit) :
    ∃ log, b.dispatchAll limitTicks now units =
      { b.started units.length with
        log, pending := b.pending ++ flights b.settings now units } := by
  induction units generalizing b now with
  | nil => exact ⟨b.log, by simp [dispatchAll, flights, started]⟩
  | cons u rest ih =>
    obtain ⟨log, hdispatch⟩ := dispatch_eq hrunning hrange now u
    obtain ⟨log', hrest⟩ := ih (b := { b.started 1 with
      log, pending := b.pending ++ flights b.settings now [u] }) hrunning hrange (now + 1)
    refine ⟨log', ?_⟩
    rw [dispatchAll, hdispatch, hrest]
    have hpending : b.pending ++ flights b.settings now [u] ++ flights b.settings (now + 1) rest
        = b.pending ++ flights b.settings now (u :: rest) := by
      rw [List.append_assoc]
      rfl
    have hstarted : b.report.started + 1 + rest.length = b.report.started + (u :: rest).length := by
      rw [List.length_cons]
      omega
    simp only [started, hpending, hstarted]

theorem dispatchAll_stopped {b : Batch} (h : b.stop.isSome = true) (now : Nat)
    (units : List WorkUnit) : b.dispatchAll limitTicks now units = b := by
  induction units generalizing now with
  | nil => rfl
  | cons u rest ih =>
    have hdispatch : b.dispatch limitTicks now u = b := by rw [dispatch, if_pos h]
    rw [dispatchAll, hdispatch]
    exact ih (now + 1)

/-- A time limit past the range stops the batch at its first unit. -/
theorem stop_dispatchAll {b : Batch} (hrunning : b.stop = none)
    (hrange : outOfRange b.settings.unitTimeout = true) (now : Nat) {units : List WorkUnit}
    (hne : units ≠ []) :
    (b.dispatchAll limitTicks now units).stop = some .timeoutOutOfRange ∧
      (b.dispatchAll limitTicks now units).pending = b.pending := by
  cases units with
  | nil => exact absurd rfl hne
  | cons u rest =>
    have hdispatch : (b.dispatch limitTicks now u).stop = some .timeoutOutOfRange ∧
        (b.dispatch limitTicks now u).pending = b.pending := by
      unfold dispatch
      rw [if_neg (by simp [hrunning])]
      simp only [say]
      cases htimeout : b.settings.unitTimeout <;> rw [htimeout] at hrange
      case null => cases hrange
      all_goals simp only [hrange, if_true, and_self]
    rw [dispatchAll, dispatchAll_stopped (by simp [hdispatch.1])]
    exact hdispatch

/-! ## Work -/

theorem turnsInOrder_eq (worker : Worker) (units : List WorkUnit) :
    turnsInOrder limitTicks worker units = turns worker 0 units := by
  rw [turnsInOrder, List.mapIdx_eq_zipIdx_map]
  rfl

/-- A batch that can wait for its units dispatches all of them, and then awaits them. Without units
there is no waiting. -/
theorem work_awaits {b : Batch} (hrunning : b.stop = none) (hpending : b.pending = [])
    {units : List WorkUnit} (hwait : units ≠ [] → canWait b.settings.unitTimeout = true)
    (worker : Worker) (hnodup : (units.map WorkUnit.path).Nodup) :
    (b.dispatchAll limitTicks 0 units).Awaits b.settings [] 0 units ∧
    (b.dispatchAll limitTicks 0 units).core = (b.started units.length).core ∧
    b.work worker units = (b.dispatchAll limitTicks 0 units).await (turns worker 0 units) := by
  by_cases hnone : units = []
  · subst hnone
    refine ⟨⟨hpending, nofun, .nil⟩, rfl, ?_⟩
    simp only [work, dispatchAll, hrunning, hpending]
    cases waitStop? b.settings.unitTimeout <;> rfl
  · have hwait := hwait hnone
    simp only [canWait, Bool.and_eq_true, Bool.not_eq_true', Option.isNone_iff_eq_none] at hwait
    obtain ⟨log, hdispatch⟩ := dispatchAll_eq hrunning hwait.1 0 units
    refine ⟨?_, ?_, ?_⟩
    · rw [hdispatch]
      exact ⟨by rw [hpending], by simp, by simpa using hnodup⟩
    · rw [hdispatch]
      rfl
    · unfold work
      rw [hdispatch, turnsInOrder_eq]
      simp only [started, hwait.2]
      cases b.stop <;> rfl

/-- Dispatching and awaiting units settles those that end, in their order, and leaves the others
pending. -/
theorem work_settles {b : Batch} (hrunning : b.stop = none) (hpending : b.pending = [])
    {units : List WorkUnit} (hwait : units ≠ [] → canWait b.settings.unitTimeout = true)
    (worker : Worker) (hnodup : (units.map WorkUnit.path).Nodup) :
    (b.work worker units).core =
      ((b.started units.length).settleAll (b.settings.endings worker units)).core ∧
    (b.work worker units).pending = idle b.settings worker units := by
  obtain ⟨hawaits, hcore, hwork⟩ := work_awaits hrunning hpending hwait worker hnodup
  obtain ⟨hsettled, hidle⟩ := await_turns hawaits worker
  rw [hwork]
  exact ⟨hsettled.trans (core_settleAll hcore _), hidle⟩

theorem await_of_none_pending {b : Batch} (h : b.pending = []) (ts : List Turn) :
    b.await ts = b := by
  have hanswer : ∀ path e, b.answer path e = b := by
    intro path e
    simp [answer, h]
  have hturn : ∀ t, b.turn t = b := by
    intro t
    rw [turn, List.foldl_fixed' fun e => hanswer e.1 e.2, expire, h]
    rfl
  exact List.foldl_fixed' hturn ts

/-- A time limit that the clock cannot keep stops the batch, at the dispatch of its first unit or
at its first wait. -/
theorem work_stopped {b : Batch} (hrunning : b.stop = none) (hpending : b.pending = [])
    (hwait : canWait b.settings.unitTimeout = false) (worker : Worker) {units : List WorkUnit}
    (hne : units ≠ []) :
    let b' := b.dispatchAll limitTicks 0 units
    (b'.stop ≠ none ∧ b.work worker units = b') ∨
      ∃ s, b'.stop = none ∧ b'.pending ≠ [] ∧ waitStop? b'.settings.unitTimeout = some s ∧
        b.work worker units = { b' with stop := some s } := by
  intro b'
  cases hrange : outOfRange b.settings.unitTimeout with
  | true =>
    obtain ⟨hstop, hnone⟩ := stop_dispatchAll hrunning hrange 0 hne
    refine .inl ⟨by simp [b', hstop], ?_⟩
    simp only [work, hstop]
    exact await_of_none_pending (hnone.trans hpending) _
  | false =>
    obtain ⟨s, hs⟩ : ∃ s, waitStop? b.settings.unitTimeout = some s := by
      simpa [canWait, hrange, ← Option.isSome_iff_exists] using hwait
    obtain ⟨log, hdispatch⟩ := dispatchAll_eq hrunning hrange 0 units
    have hflights : b.pending ++ flights b.settings 0 units ≠ [] := by
      simpa [hpending, flights] using hne
    refine .inr ⟨s, ?_⟩
    simp only [b', work, hdispatch, started, hs, hrunning]
    refine ⟨trivial, hflights, trivial, ?_⟩
    rw [if_neg (by simpa using hflights)]

theorem stop_work {b : Batch} (hrunning : b.stop = none) (hpending : b.pending = [])
    (hwait : canWait b.settings.unitTimeout = false) (worker : Worker) {units : List WorkUnit}
    (hne : units ≠ []) : (b.work worker units).stop ≠ none := by
  rcases work_stopped hrunning hpending hwait worker hne with ⟨hstop, hwork⟩ | ⟨s, -, -, -, hwork⟩
  · rw [hwork]
    exact hstop
  · rw [hwork]
    simp

/-! ## What a whole run keeps -/

/-- A property of batches that each step of a run with these units keeps: a unit is dispatched, a
unit ends, or the wait is too long for the clock. -/
structure IsKept (units : List WorkUnit) (I : Batch → Prop) : Prop where
  dispatch : ∀ b, I b → ∀ limit now, ∀ u ∈ units, I (b.dispatch limit now u)
  answer : ∀ b, I b → ∀ path e, I (b.answer path e)
  clock : ∀ b, I b → ∀ s, waitStop? b.settings.unitTimeout = some s → I { b with stop := some s }

section Kept

variable {units : List WorkUnit} {I : Batch → Prop} (hI : IsKept units I) {b : Batch} (hb : I b)

include hI hb

theorem IsKept.dispatchAll (limit now : Nat) {queue : List WorkUnit} (hqueue : queue ⊆ units) :
    I (b.dispatchAll limit now queue) := by
  induction queue generalizing b now with
  | nil => exact hb
  | cons u rest ih =>
    obtain ⟨hu, hrest⟩ := List.cons_subset.mp hqueue
    exact ih (hI.dispatch b hb limit now u hu) (now + 1) hrest

theorem IsKept.turn (t : Turn) : I (b.turn t) := by
  have hanswered : I (t.endings.foldl (fun b e => b.answer e.1 e.2) b) :=
    List.foldlRecOn _ _ hb fun b hb e _ => hI.answer b hb e.1 e.2
  exact List.foldlRecOn _ _ hanswered fun b hb f _ => hI.answer b hb f.unit.path .timedOut

theorem IsKept.work (worker : Worker) : I (b.work worker units) := by
  have hdispatched := hI.dispatchAll hb limitTicks 0 (List.Subset.refl units)
  unfold Batch.work
  simp only
  split
  · rename_i s _ hs
    split
    · exact hdispatched
    · exact hI.clock _ hdispatched s hs
  · exact List.foldlRecOn _ _ hdispatched fun _ hb t _ => hI.turn hb t

end Kept

end Batch

end BlockScript
