-- Where paths lead, and what stays there. A path that can be followed leads to
-- the place that its names spell out, a file is written at that place only, and
-- a directory is made only where nothing is.
import BlockScript.Proofs.DiskWrites
import BlockScript.Proofs.Writability

namespace BlockScript

namespace Disk

/-! ## Where paths lead -/

/-- The place that a path names, whatever is on the disk. -/
def target (d : Disk) (t : Text) : Place := (Path.tidyNames [] (d.namesOf t)).map .ofText

theorem place_of_follow {d : Disk} {done names : List Text} {q : Place}
    (h : d.follow (done.reverse.map .ofText) names = .ok q) :
    (Path.tidyNames done names).map .ofText = q := by
  induction names generalizing done with
  | nil =>
    cases h
    rfl
  | cons name rest ih =>
    obtain ⟨-, -, h⟩ := follow_cons_ok_iff.mp h
    rw [next] at h
    rw [Path.tidyNames]
    split at h
    · rw [if_pos (by assumption)]
      exact ih h
    · rw [if_neg (by assumption)]
      split at h
      · rw [if_pos (by assumption)]
        refine ih ?_
        rw [← List.dropLast_reverse, List.map_dropLast]
        exact h
      · rw [if_neg (by assumption)]
        refine ih ?_
        simpa using h

theorem target_of_follow {d : Disk} {t : Text} {q : Place}
    (h : d.follow [] (d.namesOf t) = .ok q) : d.target t = q := place_of_follow h

/-- Every place above `p` is a directory. -/
def Reached (d : Disk) (p : Place) : Prop := ∀ q, q <+: p → q ≠ p → d.item? q = some .directory

theorem Reached.next {d : Disk} {p : Place} (h : d.Reached p) (hp : d.item? p = some .directory)
    (name : Text) : d.Reached (next p name) := by
  unfold Disk.next
  split
  · exact h
  · split
    · intro q hq hne
      have hqp := hq.trans (List.dropLast_prefix p)
      refine h q hqp ?_
      rintro rfl
      exact hne (hq.eq_of_length_le (by simp))
    · intro q hq hne
      rcases List.prefix_concat_iff.mp hq with rfl | hq
      · exact absurd rfl hne
      · by_cases heq : q = p
        · rw [heq, hp]
        · exact h q hq heq

theorem reached_of_follow {d : Disk} {p q : Place} {names : List Text}
    (hp : d.Reached p) (h : d.follow p names = .ok q) : d.Reached q := by
  induction names generalizing p with
  | nil =>
    cases h
    exact hp
  | cons name rest ih =>
    obtain ⟨hitem, -, h⟩ := follow_cons_ok_iff.mp h
    exact ih (hp.next hitem name) h

/-- No name and the dots lead from a directory to a directory. -/
theorem directory_next {d : Disk} {p : Place} (h : d.Reached p)
    (hp : d.item? p = some .directory) {name : Text} (hname : name = [] ∨ isDots name = true) :
    d.item? (Disk.next p name) = some .directory := by
  rw [isDots, Bool.or_eq_true, decide_eq_true_eq, decide_eq_true_eq] at hname
  rcases hname with rfl | rfl | rfl
  · exact hp
  · exact hp
  · change d.item? p.dropLast = some .directory
    by_cases heq : p.dropLast = p
    · rw [heq, hp]
    · exact h _ (List.dropLast_prefix p) heq

theorem stat_ok_iff {d : Disk} {t : Text} {p : Place} {item : Item} :
    d.stat t = .ok (p, item) ↔
      checkPath t = .ok () ∧ d.follow [] (d.namesOf t) = .ok p ∧ d.item? p = some item := by
  unfold stat
  cases checkPath t with
  | error e => simp [bind, Except.bind]
  | ok u =>
    cases d.follow [] (d.namesOf t) with
    | error cause => simp [bind, Except.bind, Except.mapError]
    | ok q =>
      simp only [bind, Except.bind, Except.mapError, true_and, Except.ok.injEq]
      cases hitem : d.item? q with
      | none =>
        constructor
        · intro h
          cases h
        · rintro ⟨rfl, h⟩
          rw [hitem] at h
          cases h
      | some item' =>
        constructor
        · intro h
          cases h
          exact ⟨rfl, hitem⟩
        · rintro ⟨rfl, h⟩
          rw [hitem] at h
          cases h
          rfl

theorem file_eq_some_iff {d : Disk} {t : Text} {content : List UInt8} :
    d.file? t = some content ↔ ∃ p, d.stat t = .ok (p, .file content) := by
  unfold file?
  split
  · rename_i p old hstat
    simp [hstat]
  · rename_i hnot
    constructor
    · intro h
      cases h
    · rintro ⟨p, hstat⟩
      exact absurd hstat (hnot p content)

/-! ## Opening files -/

theorem joined_eq_append (dir t : Text) : ∃ front, Path.joined dir t = front ++ t := by
  unfold Path.joined
  split
  · exact ⟨[], rfl⟩
  · split
    · exact ⟨dir, rfl⟩
    · exact ⟨dir ++ "/", rfl⟩

theorem lastName_of_slash {d : Disk} {t : Text} (h : t.getLast? = some Path.slash) :
    d.lastName t = [] := by
  obtain ⟨front, rfl⟩ := List.getLast?_eq_some_iff.mp h
  obtain ⟨more, hjoined⟩ := joined_eq_append d.work (front ++ [Path.slash])
  have hsplit : (more ++ front ++ [Path.slash] ++ []).splitOn Path.slash
      = (more ++ front).splitOn Path.slash ++ [[]] := splitOn_append (by simp)
  rw [List.append_nil, List.append_assoc] at hsplit
  rw [lastName, namesOf, hjoined, hsplit]
  simp

theorem dropSlashes_of_last {t : Text} (h : t.getLast? ≠ some Path.slash) :
    Path.dropSlashes t = t := by
  rcases List.eq_nil_or_concat' t with rfl | ⟨front, g, rfl⟩
  · rfl
  · have hg : g ≠ Path.slash := by simpa using h
    simp [Path.dropSlashes, hg]

/-- A path that leads to a place, and not to one by dots or slashes, is one of a file there, unless
the place is a directory or shut. -/
theorem filePlace_of_follow {d : Disk} {t : Text} {p : Place} (hlast : t.getLast? ≠ some Path.slash)
    (hfollow : d.follow [] (d.namesOf t) = .ok p) :
    d.filePlace t = if isDots (d.lastName t) = true ∨ d.item? p = some .directory then
      .error .isDirectory else d.unlocked p := by
  rw [filePlace, lastPlace_eq, dropSlashes_of_last hlast, hfollow]
  simp only [bind, Except.bind, Except.map, hlast, decide_false, Bool.false_or, Bool.or_eq_true,
    decide_eq_true_eq]
  rfl

theorem filePlace_ok_iff {d : Disk} {t : Text} {p : Place} :
    d.filePlace t = .ok p ↔
      t.getLast? ≠ some Path.slash ∧ isDots (d.lastName t) = false ∧
        d.follow [] (d.namesOf t) = .ok p ∧ d.item? p ≠ some .directory ∧
        d.unlocked p = .ok p := by
  by_cases hlast : t.getLast? = some Path.slash
  · rw [filePlace, lastPlace_eq]
    cases d.follow [] (d.namesOf (Path.dropSlashes t)) with
    | error cause => simp [hlast, bind, Except.bind, Except.map]
    | ok q => simp [hlast, bind, Except.bind, Except.map]
  · cases hfollow : d.follow [] (d.namesOf t) with
    | error cause =>
      rw [filePlace, lastPlace_eq, dropSlashes_of_last hlast, hfollow]
      simp [bind, Except.bind, Except.map]
    | ok q =>
      rw [filePlace_of_follow hlast hfollow]
      split
      · rename_i hbad
        constructor
        · intro h
          cases h
        · rintro ⟨-, hdots, hq, hfile, -⟩
          cases hq
          exact absurd hbad (by simp [hdots, hfile])
      · rename_i hgood
        rw [not_or, Bool.not_eq_true] at hgood
        constructor
        · intro h
          cases unlocked_ok h
          exact ⟨hlast, hgood.1, rfl, hgood.2, h⟩
        · rintro ⟨-, -, hq, -, h⟩
          cases hq
          exact h

theorem open_ok_iff {d : Disk} {t : Text} {p : Place} :
    d.open? t = .ok p ↔ checkPath t = .ok () ∧ d.filePlace t = .ok p := by
  unfold open?
  cases checkPath t with
  | error e => simp [bind, Except.bind]
  | ok u => cases d.filePlace t <;> simp [bind, Except.bind, Except.mapError]

/-- A file is opened at the place that its path names. -/
theorem target_of_open {d : Disk} {t : Text} {p : Place} (h : d.open? t = .ok p) :
    d.target t = p ∧ d.item? p ≠ some .directory := by
  obtain ⟨-, -, hfollow, hfile, -⟩ := filePlace_ok_iff.mp (open_ok_iff.mp h).2
  exact ⟨target_of_follow hfollow, hfile⟩

/-- A file that a path leads to can be opened there, unless it is shut. -/
theorem open_of_stat {d : Disk} {t : Text} {p : Place} {content : List UInt8}
    (h : d.stat t = .ok (p, .file content)) :
    d.open? t = (d.unlocked p).mapError (.refused · t) := by
  obtain ⟨hcheck, hfollow, hitem⟩ := stat_ok_iff.mp h
  have hfile : d.item? p ≠ some .directory := by simp [hitem]
  have hsteps := hfollow
  rw [namesOf_eq, follow_append] at hsteps
  obtain ⟨r, hr, hlast⟩ := ok_of_bind_ok hsteps
  obtain ⟨hdirectory, -, hnext⟩ := follow_cons_ok_iff.mp hlast
  cases hnext
  have hreached : d.Reached r := by
    refine reached_of_follow ?_ hr
    intro q hq hne
    exact absurd (List.prefix_nil.mp hq) hne
  have hname : ¬ (d.lastName t = [] ∨ isDots (d.lastName t) = true) :=
    fun hname => hfile (directory_next hreached hdirectory hname)
  rw [not_or, Bool.not_eq_true] at hname
  have hslash : t.getLast? ≠ some Path.slash := fun hslash => hname.1 (lastName_of_slash hslash)
  unfold open?
  rw [hcheck, filePlace_of_follow hslash hfollow, if_neg (by simp [hname.2, hfile])]
  rfl

/-! ## What stays -/

/-- The second disk has all directories and hurdles of the first, and the same at the place `p`. -/
structure Keeps (d d' : Disk) (p : Place) : Prop where
  work : d'.work = d.work
  hurdles : d'.hurdle? = d.hurdle?
  directories : ∀ q, d.item? q = some .directory → d'.item? q = some .directory
  item : d'.item? p = d.item? p

theorem Keeps.refl (d : Disk) (p : Place) : d.Keeps d p := ⟨rfl, rfl, fun _ h => h, rfl⟩

theorem Keeps.trans {d d' d'' : Disk} {p : Place} (h : d.Keeps d' p) (h' : d'.Keeps d'' p) :
    d.Keeps d'' p :=
  ⟨h'.work.trans h.work, h'.hurdles.trans h.hurdles,
    fun q hq => h'.directories q (h.directories q hq), h'.item.trans h.item⟩

theorem Keeps.target {d d' : Disk} {p : Place} (h : d.Keeps d' p) (t : Text) :
    d'.target t = d.target t := by
  rw [Disk.target, Disk.target, namesOf, namesOf, h.work]

theorem Keeps.stat {d d' : Disk} {p : Place} (h : d.Keeps d' p) {t : Text} {item : Item}
    (hstat : d.stat t = .ok (p, item)) : d'.stat t = .ok (p, item) := by
  obtain ⟨hcheck, hfollow, hitem⟩ := stat_ok_iff.mp hstat
  refine stat_ok_iff.mpr ⟨hcheck, ?_, h.item.trans hitem⟩
  rw [namesOf, h.work]
  exact follow_mono h.directories hfollow

/-- Whatever is put elsewhere, in the place of no directory, is kept apart from `p`. -/
theorem keeps_put {d : Disk} {p q : Place} (hq : d.item? q ≠ some .directory) (hne : q ≠ p)
    (item : Item) : d.Keeps (d.put q item) p := by
  have hnil : q ≠ [] := by
    rintro rfl
    exact hq rfl
  refine ⟨rfl, rfl, ?_, ?_⟩
  · intro r hr
    rw [item_put d hnil, if_neg, hr]
    rintro rfl
    exact hq hr
  · rw [item_put d hnil, if_neg hne.symm]

theorem keeps_writeText {d : Disk} {p : Place} {t : Text} (hne : d.target t ≠ p) (text : Text) :
    d.Keeps (d.writeText t text).1 p := by
  rw [writeText_eq]
  cases hopen : d.open? t with
  | error e => exact .refl d p
  | ok q =>
    obtain ⟨rfl, hfile⟩ := target_of_open hopen
    exact keeps_put hfile hne _

/-- A directory is made only where nothing is. -/
theorem free_of_freePlace {d : Disk} {t : Text} {q : Place} (h : d.freePlace t = .ok q) :
    d.item? q = none := by
  obtain ⟨⟨p, name⟩, -, h⟩ := ok_of_bind_ok h
  simp only at h
  split at h
  · cases h
  · rename_i hfree
    cases unlocked_ok h
    simp only [Bool.or_eq_true, not_or, Bool.not_eq_true, Option.isSome_eq_false_iff,
      Option.isNone_iff_eq_none] at hfree
    exact hfree.2

theorem keeps_ensureDirectory {d : Disk} {p : Place} (hp : (d.item? p).isSome = true) (t : Text) :
    d.Keeps (d.ensureDirectory t).1 p := by
  unfold ensureDirectory
  cases hmade : d.makeDirectory t with
  | error e => cases e <;> exact .refl d p
  | ok d' =>
    obtain ⟨-, -, hmade⟩ := ok_of_bind_ok hmade
    obtain ⟨q, hq, hmade⟩ := ok_of_bind_ok hmade
    cases hmade
    cases hplace : d.freePlace t with
    | error cause =>
      rw [hplace] at hq
      cases hq
    | ok q' =>
      rw [hplace] at hq
      cases hq
      have hfree := free_of_freePlace hplace
      refine keeps_put (by simp [hfree]) ?_ _
      rintro rfl
      simp [hfree] at hp

theorem keeps_makeDirectoriesWithin {d : Disk} {p : Place} (hp : (d.item? p).isSome = true)
    (fuel : Nat) (t : Text) : d.Keeps (d.makeDirectoriesWithin fuel t).1 p := by
  induction fuel generalizing t with
  | zero => exact keeps_ensureDirectory hp t
  | succ fuel ih =>
    have hensure : ∀ d', d.Keeps d' p → d.Keeps (d'.ensureDirectory t).1 p := by
      intro d' h
      refine h.trans (keeps_ensureDirectory ?_ t)
      rw [h.item, hp]
    have hfront : ∀ {front d' r}, d.makeDirectoriesWithin fuel front = (d', r) → d.Keeps d' p := by
      intro front d' r heq
      have hkeeps := ih front
      rw [heq] at hkeeps
      exact hkeeps
    rw [makeDirectoriesWithin]
    simp only
    split <;> split
    case h_1.isTrue => exact hensure d (.refl d p)
    case h_2.isTrue => exact hensure d (.refl d p)
    -- whatever the directories above come to, only `t` itself is made after them
    all_goals
      split
      · rename_i heq
        split
        · exact hfront heq
        · exact hensure _ (hfront heq)
      · rename_i heq
        split
        · exact hfront heq
        · exact hensure _ (hfront heq)
      · rename_i heq
        exact hfront heq

theorem keeps_makeDirectories {d : Disk} {p : Place} (hp : (d.item? p).isSome = true) (t : Text) :
    d.Keeps (d.makeDirectories t).1 p := keeps_makeDirectoriesWithin hp t.length t

end Disk

end BlockScript
