-- The search for a free path. It looks at one candidate after the other, passes
-- over the used ones and stops at the first free one, which comes after no more
-- candidates than there are used paths. Each unit of a manifest searches among
-- the paths of the units before it.
import BlockScript.Proofs.OutputPaths

namespace BlockScript

/-! ## Numbered paths -/

def plainPath (dir stem : Text) : Text := dir ++ "/" ++ stem ++ ".js"

def numberedPath (dir stem : Text) (k : Nat) : Text :=
  dir ++ "/" ++ stem ++ "_" ++ Text.ofNat k ++ ".js"

theorem candidatePath_zero (dir stem : Text) : candidatePath dir stem 0 = plainPath dir stem := by
  simp [candidatePath, plainPath]

theorem candidatePath_succ (dir stem : Text) (i : Nat) :
    candidatePath dir stem (i + 1) = numberedPath dir stem (i + 2) := by
  simp [candidatePath, numberedPath]

/-- The path is a free one: the plain path, or else the numbered one with the least number from
two on. -/
structure IsLeastFree (used : List Text) (dir stem path : Text) : Prop where
  free : path ∉ used
  plain : plainPath dir stem ∉ used → path = plainPath dir stem
  numbered : plainPath dir stem ∈ used → ∃ k, 2 ≤ k ∧ path = numberedPath dir stem k ∧
    ∀ j, 2 ≤ j → j < k → numberedPath dir stem j ∈ used

theorem isLeastFree_freePath (used : List Text) (dir stem : Text) :
    IsLeastFree used dir stem (freePath used dir stem) := by
  obtain ⟨i, -, hpath, hfree, hbefore⟩ := freePath_least used dir stem
  rw [hpath]
  cases i with
  | zero =>
    rw [candidatePath_zero] at hfree ⊢
    exact ⟨hfree, fun _ => rfl, fun hused => absurd hused hfree⟩
  | succ i =>
    refine ⟨hfree, fun hplain => ?_, fun _ => ⟨i + 2, by omega, candidatePath_succ dir stem i, ?_⟩⟩
    · rw [← candidatePath_zero] at hplain
      exact absurd (hbefore 0 (by omega)) hplain
    · intro j hj hlt
      obtain ⟨j, rfl⟩ := Nat.exists_eq_add_of_le' hj
      rw [← candidatePath_succ]
      exact hbefore (j + 1) (by omega)

/-- It is only of account which paths are used, not in which order or how often. -/
theorem freePath_congr {used used' : List Text} (h : ∀ p, p ∈ used ↔ p ∈ used') (dir stem : Text) :
    freePath used dir stem = freePath used' dir stem := by
  obtain ⟨i, -, hpath, hfree, hbefore⟩ := freePath_least used dir stem
  obtain ⟨i', -, hpath', hfree', hbefore'⟩ := freePath_least used' dir stem
  have hle : i ≤ i' := Nat.le_of_not_lt fun hlt => hfree' ((h _).mp (hbefore i' hlt))
  have hge : i' ≤ i := Nat.le_of_not_lt fun hlt => hfree ((h _).mpr (hbefore' i hlt))
  rw [hpath, hpath', Nat.le_antisymm hle hge]

/-! ## The search -/

/-- What the search looks at: a path, and the number that it tries next. -/
structure Trial where
  path : Text
  number : Nat

def Trial.first (dir stem : Text) : Trial := ⟨plainPath dir stem, 2⟩

def Trial.next (dir stem : Text) (t : Trial) : Trial :=
  ⟨numberedPath dir stem t.number, t.number + 1⟩

/-- From a trial on, the search passes over so many used paths and ends with the path. -/
inductive Search (used : List Text) (dir stem : Text) : Trial → Nat → Text → Prop
  | free {t : Trial} : t.path ∉ used → Search used dir stem t 0 t.path
  | taken {t : Trial} {rounds : Nat} {p : Text} : t.path ∈ used →
      Search used dir stem (t.next dir stem) rounds p → Search used dir stem t (rounds + 1) p

/-- The trial after `i` rounds. -/
def Trial.after (dir stem : Text) (i : Nat) : Trial := ⟨candidatePath dir stem i, i + 2⟩

theorem Trial.after_zero (dir stem : Text) : Trial.after dir stem 0 = Trial.first dir stem := by
  rw [Trial.after, candidatePath_zero]
  rfl

theorem Trial.next_after (dir stem : Text) (i : Nat) :
    (Trial.after dir stem i).next dir stem = Trial.after dir stem (i + 1) := by
  rw [Trial.next, Trial.after, Trial.after, candidatePath_succ]

/-- Used candidates are passed over, one a round, up to a free one. -/
theorem search_after {used : List Text} {dir stem : Text} {rounds : Nat} (i : Nat)
    (htaken : ∀ j < rounds, candidatePath dir stem (i + j) ∈ used)
    (hfree : candidatePath dir stem (i + rounds) ∉ used) :
    Search used dir stem (.after dir stem i) rounds (candidatePath dir stem (i + rounds)) := by
  induction rounds generalizing i with
  | zero => exact .free hfree
  | succ rounds ih =>
    have hshift : ∀ j, i + (j + 1) = i + 1 + j := by omega
    rw [hshift rounds] at hfree ⊢
    refine .taken (htaken 0 (by omega)) ?_
    rw [Trial.next_after]
    refine ih (i + 1) (fun j hj => ?_) hfree
    rw [← hshift]
    exact htaken (j + 1) (by omega)

/-- A search has one end. -/
theorem Search.unique {used : List Text} {dir stem : Text} {t : Trial} {m n : Nat} {p q : Text}
    (h : Search used dir stem t m p) (h' : Search used dir stem t n q) : m = n ∧ p = q := by
  induction h generalizing n with
  | free hfree =>
    cases h' with
    | free => exact ⟨rfl, rfl⟩
    | taken htaken _ => exact absurd htaken hfree
  | taken htaken _ ih =>
    cases h' with
    | free hfree => exact absurd htaken hfree
    | taken _ h' =>
      obtain ⟨rfl, rfl⟩ := ih h'
      exact ⟨rfl, rfl⟩

theorem search_iff (used : List Text) (dir stem : Text) :
    ∃ rounds ≤ used.length, ∀ n p,
      Search used dir stem (.first dir stem) n p ↔ n = rounds ∧ p = freePath used dir stem := by
  obtain ⟨rounds, hle, hpath, hfree, hbefore⟩ := freePath_least used dir stem
  have hsearch : Search used dir stem (.first dir stem) rounds (freePath used dir stem) := by
    have h := search_after 0 (by simpa using hbefore) (by simpa using hfree)
    rwa [Trial.after_zero, Nat.zero_add, ← hpath] at h
  refine ⟨rounds, hle, fun n p => ⟨fun h => h.unique hsearch, ?_⟩⟩
  rintro ⟨rfl, rfl⟩
  exact hsearch

/-! ## Units -/

/-- The shelf that a unit comes from. -/
def WorkUnit.shelf (u : WorkUnit) : Shelf :=
  if u.function.isSome then functionShelf else objectShelf

theorem path_unitOf {s : Shelf} {g : Settings} {used : List Text} {index : Nat}
    {entry : List (Text × Json)} {script : Text} {u : WorkUnit}
    (h : s.unitOf g used index entry script = .ok u) :
    u.function.isSome = s.holdsFunctions ∧ ∃ stem, fileStem u.id = .ok stem ∧
      u.path = freePath used g.outputDir (s.stemStart ++ stem) := by
  obtain ⟨stem, hstem, h⟩ := ok_of_bind_ok h
  cases h
  refine ⟨?_, stem, hstem, rfl⟩
  cases s.holdsFunctions <;> rfl

/-- Along a list of entries, each unit adds its path to the used ones and nothing else. -/
theorem path_units {s : Shelf} {g : Settings} {entries : List (List (Text × Json))}
    {used : List Text} {index : Nat} {before after : List WorkUnit} {u : WorkUnit}
    (h : s.units g used index entries = .ok (before ++ u :: after)) :
    u.function.isSome = s.holdsFunctions ∧ ∃ stem, fileStem u.id = .ok stem ∧
      u.path = freePath (used ++ before.map WorkUnit.path) g.outputDir (s.stemStart ++ stem) := by
  induction entries generalizing used index before with
  | nil => simp [Shelf.units] at h
  | cons entry rest ih =>
    rcases units_cons h with ⟨-, h⟩ | ⟨script, v, more, -, hv, hmore, heq⟩
    · exact ih h
    · cases before with
      | nil =>
        obtain ⟨rfl, -⟩ := List.cons.inj heq
        simpa using path_unitOf hv
      | cons w before =>
        obtain ⟨rfl, rfl⟩ := List.cons.inj heq
        obtain ⟨hfunction, stem, hstem, hpath⟩ := ih hmore
        refine ⟨hfunction, stem, hstem, hpath.trans (freePath_congr (fun p => ?_) _ _)⟩
        simp only [List.mem_append, List.mem_cons, List.map_cons]
        tauto

/-- The path of a unit is searched among the paths of the units before it. -/
theorem path_collectUnits {g : Settings} {manifest : List (Text × Json)}
    {before after : List WorkUnit} {u : WorkUnit}
    (h : collectUnits g manifest = .ok (before ++ u :: after)) :
    ∃ stem, fileStem u.id = .ok stem ∧
      u.path = freePath (before.map WorkUnit.path) g.outputDir (u.shelf.stemStart ++ stem) := by
  obtain ⟨objects, functions, heq, hobjects, hfunctions⟩ := collectUnits_cases h
  have hlater : ∀ more, before = objects ++ more → functions = more ++ u :: after →
      ∃ stem, fileStem u.id = .ok stem ∧
        u.path = freePath (before.map WorkUnit.path) g.outputDir (u.shelf.stemStart ++ stem) := by
    rintro more rfl rfl
    obtain ⟨hfunction, stem, hstem, hpath⟩ := path_units hfunctions
    have hshelf : u.shelf = functionShelf := if_pos hfunction
    refine ⟨stem, hstem, hshelf ▸ hpath.trans (freePath_congr (fun p => ?_) _ _)⟩
    simp
  rcases List.append_eq_append_iff.mp heq with ⟨more, rfl, htail⟩ | ⟨more, hbefore, hmore⟩
  · cases more with
    | nil => exact hlater [] (by simp) htail.symm
    | cons v more =>
      obtain ⟨rfl, rfl⟩ := List.cons.inj htail
      obtain ⟨hfunction, stem, hstem, hpath⟩ := path_units hobjects
      have hshelf : u.shelf = objectShelf := if_neg (by simp [hfunction, objectShelf])
      exact ⟨stem, hstem, hshelf ▸ hpath⟩
  · exact hlater more hbefore hmore

/-- Among any used paths the search comes to its one end, the least free path, in no more rounds
than there are used paths. Along a manifest each search adds the path it ends with to the used ones
and nothing else: a unit searches among the paths of the units before it. -/
theorem path_searches_end_at_the_least_free_path :
    (∀ (used : List Text) (dir stem : Text),
      IsLeastFree used dir stem (freePath used dir stem) ∧
      ∃ rounds ≤ used.length, ∀ n p,
        Search used dir stem (.first dir stem) n p ↔ n = rounds ∧ p = freePath used dir stem) ∧
    ∀ (g : Settings) (manifest : List (Text × Json)) (before after : List WorkUnit) (u : WorkUnit),
      collectUnits g manifest = .ok (before ++ u :: after) →
      ∃ stem, fileStem u.id = .ok stem ∧
        u.path = freePath (before.map WorkUnit.path) g.outputDir (u.shelf.stemStart ++ stem) :=
  ⟨fun used dir stem => ⟨isLeastFree_freePath used dir stem, search_iff used dir stem⟩,
    fun _ _ _ _ _ h => path_collectUnits h⟩

/-- Two numbers are taken, by a repeated id and by an id that looks like a numbered one. -/
theorem third_number_is_searched :
    let object (id : Text) : Json := .obj [("id", .str id), ("script", .str "[]")]
    let manifest : List (Text × Json) :=
      [("objects", .arr [object "dup", object "dup_2", object "dup"])]
    ∃ (before : List WorkUnit) (u : WorkUnit), collectUnits {} manifest = .ok (before ++ [u]) ∧
      before.map WorkUnit.path = ["script/dup.js", "script/dup_2.js"] ∧
      u.path = "script/dup_3.js" ∧
      (∃ stem, fileStem u.id = .ok stem ∧
        u.path = freePath (before.map WorkUnit.path) "script" (u.shelf.stemStart ++ stem)) ∧
      IsLeastFree (before.map WorkUnit.path) "script" "dup" u.path := by
  intro object manifest
  obtain ⟨hsearch, hunits⟩ := path_searches_end_at_the_least_free_path
  exact ⟨[_, _], _, rfl, rfl, rfl, hunits {} manifest [_, _] [] _ rfl,
    (hsearch ["script/dup.js", "script/dup_2.js"] "script" "dup").1⟩

end BlockScript
