-- Writing files side by side in one directory. Which files can be written is
-- settled by the directories of the disk, and writing a file makes no
-- directory, so no write opens or closes the way for another.
import BlockScript.Proofs.OutputPaths
import BlockScript.Proofs.Utf8

namespace BlockScript

/-! ## Paths of one directory -/

namespace Path

/-- The directory `dir` seen from `home`, as a text that file names can be put behind. -/
def folder (home dir : Text) : Text :=
  if isAbsolute (dir ++ "/") then dir
  else if home.isEmpty || home.getLast? = some slash then home ++ dir
  else home ++ "/" ++ dir

theorem isAbsolute_cons (g : Glyph) (rest : Text) :
    isAbsolute (g :: rest) = decide (slash = g) := by
  change (if slash = g then some rest else none).isSome = decide (slash = g)
  split <;> simp [*]

theorem isAbsolute_append (dir name : Text) :
    isAbsolute (dir ++ "/" ++ name) = isAbsolute (dir ++ "/") := by
  cases dir with
  | nil => exact (isAbsolute_cons _ _).trans (isAbsolute_cons _ _).symm
  | cons g rest => simp only [List.cons_append, isAbsolute_cons]

theorem joined_folder (home dir name : Text) :
    joined home (dir ++ "/" ++ name) = folder home dir ++ "/" ++ name := by
  unfold joined folder
  rw [isAbsolute_append]
  split
  · rfl
  · split <;> simp

theorem dropSlashes_append {dir name : Text} (hname : IsFileName name) :
    dropSlashes (dir ++ "/" ++ name) = dir ++ "/" ++ name := by
  obtain ⟨front, g, rfl⟩ := (List.eq_nil_or_concat' name).resolve_left hname.notEmpty
  have hg : g ≠ slash := by
    rintro rfl
    exact hname.noSlash (by simp [slash])
  simp [dropSlashes, hg]

end Path

theorem splitOn_of_not_mem {mark : Glyph} {t : Text} (h : mark ∉ t) : t.splitOn mark = [t] := by
  induction t with
  | nil => rfl
  | cons g rest ih =>
    rw [List.mem_cons, not_or] at h
    simp [Text.splitOn, ih h.2, Ne.symm h.1]

theorem splitOn_ne_nil (mark : Glyph) (t : Text) : t.splitOn mark ≠ [] := by
  cases t with
  | nil => simp [Text.splitOn]
  | cons g rest =>
    simp only [Text.splitOn]
    split
    · simp
    · split <;> simp

theorem splitOn_marked (mark : Glyph) (s t : Text) :
    (s ++ mark :: t).splitOn mark = s.splitOn mark ++ t.splitOn mark := by
  induction s with
  | nil =>
    obtain ⟨piece, pieces, hpieces⟩ := List.exists_cons_of_ne_nil (splitOn_ne_nil mark t)
    simp [Text.splitOn, hpieces]
  | cons g rest ih =>
    obtain ⟨piece, pieces, hpieces⟩ := List.exists_cons_of_ne_nil (splitOn_ne_nil mark rest)
    simp only [List.cons_append, Text.splitOn, ih, hpieces]
    split <;> rfl

theorem splitOn_append {mark : Glyph} {t name : Text} (h : mark ∉ name) :
    (t ++ [mark] ++ name).splitOn mark = t.splitOn mark ++ [name] := by
  rw [List.append_assoc, List.singleton_append, splitOn_marked, splitOn_of_not_mem h]

/-! ## What is where -/

theorem lookup_setItem (p q : Place) (item : Item) (items : List (Place × Item)) :
    (setItem p item items).lookup q = if q = p then some item else items.lookup q := by
  induction items with
  | nil =>
    by_cases h : q = p
    · simp [setItem, h]
    · simp [setItem, List.lookup_cons, h, beq_eq_false_iff_ne.mpr h]
  | cons i rest ih =>
    obtain ⟨r, old⟩ := i
    by_cases hr : r = p
    · subst hr
      by_cases h : q = r
      · simp [setItem, h]
      · simp [setItem, List.lookup_cons, h, beq_eq_false_iff_ne.mpr h]
    · by_cases hq : q = r
      · subst hq
        simp [setItem, hr]
      · simp [setItem, List.lookup_cons, hr, beq_eq_false_iff_ne.mpr hq, ih]

namespace Disk

theorem item_put (d : Disk) {p : Place} (hp : p ≠ []) (item : Item) (q : Place) :
    (d.put p item).item? q = if q = p then some item else d.item? q := by
  unfold item?
  cases q with
  | nil => simp [Ne.symm hp]
  | cons name rest => simp [put, lookup_setItem]

/-- Where a name leads from a place. -/
def next (p : Place) (name : Text) : Place :=
  if name.isEmpty || name = Text.ofString "." then p
  else if name = Text.ofString ".." then p.dropLast
  else p ++ [.ofText name]

/-- A name is followed from a directory, if it is not too long. The dots are short. -/
theorem follow_cons_ok_iff {d : Disk} {p q : Place} {name : Text} {rest : List Text} :
    d.follow p (name :: rest) = .ok q ↔
      d.item? p = some .directory ∧ byteSize name ≤ nameLimit ∧
        d.follow (next p name) rest = .ok q := by
  rw [follow, next]
  cases d.item? p with
  | none => simp
  | some item =>
    cases item with
    | file content => simp
    | directory =>
      by_cases hhere : (name.isEmpty || name = Text.ofString ".") = true
      · have hsize : byteSize name ≤ nameLimit := by
          rw [Bool.or_eq_true, List.isEmpty_iff, decide_eq_true_eq] at hhere
          rcases hhere with rfl | rfl <;> decide
        simp only [if_pos hhere, hsize, true_and]
      · by_cases habove : name = Text.ofString ".."
        · have hsize : byteSize name ≤ nameLimit := by
            rw [habove]
            decide
          simp only [if_neg hhere, if_pos habove, hsize, true_and]
        · by_cases hsize : byteSize name ≤ nameLimit
          · simp only [if_neg hhere, if_neg habove, if_neg (Nat.not_lt.mpr hsize), hsize, true_and]
          · simp [hhere, habove, hsize, Nat.not_le.mp hsize]

/-- What can be followed on one disk can be followed on any that has its directories. -/
theorem follow_mono {d d' : Disk}
    (h : ∀ q, d.item? q = some .directory → d'.item? q = some .directory) {q r : Place}
    {names : List Text} (hfollow : d.follow q names = .ok r) : d'.follow q names = .ok r := by
  induction names generalizing q with
  | nil => exact hfollow
  | cons name rest ih =>
    obtain ⟨hdirectory, hsize, hfollow⟩ := follow_cons_ok_iff.mp hfollow
    exact follow_cons_ok_iff.mpr ⟨h q hdirectory, hsize, ih hfollow⟩

/-- The place of a directory, as files in it are looked up. -/
def directoryAt (d : Disk) (dir : Text) : Except DiskCause Place :=
  match d.follow [] ((Path.folder d.work dir).splitOn Path.slash) with
  | .error cause => .error cause
  | .ok p =>
    match d.item? p with
    | none => .error .noEntry
    | some (.file _) => .error .notDirectory
    | some .directory => .ok p

/-- The place of a file that can be written in a directory. -/
def fileIn (d : Disk) (name : Text) (p : Place) : Except DiskCause Place :=
  if byteSize name > nameLimit then .error .nameTooLong
  else if d.item? (p ++ [.ofText name]) = some .directory then .error .isDirectory
  else d.unlocked (p ++ [.ofText name])

theorem namesOf_append (d : Disk) (dir : Text) {name : Text} (hname : IsFileName name) :
    d.namesOf (dir ++ "/" ++ name) = (Path.folder d.work dir).splitOn Path.slash ++ [name] := by
  rw [namesOf, Path.joined_folder]
  exact splitOn_append hname.noSlash

theorem follow_append (d : Disk) (p : Place) (names more : List Text) :
    d.follow p (names ++ more) = (d.follow p names).bind (d.follow · more) := by
  induction names generalizing p with
  | nil => rfl
  | cons name rest ih =>
    simp only [List.cons_append, follow]
    cases d.item? p with
    | none => rfl
    | some item =>
      cases item with
      | file content => rfl
      | directory =>
        simp only [ih]
        split
        · rfl
        · split
          · rfl
          · split <;> rfl

/-- The last name of a path. -/
def lastName (d : Disk) (t : Text) : Text := (d.namesOf t).getLast?.getD []

theorem namesOf_eq (d : Disk) (t : Text) :
    d.namesOf t = (d.namesOf t).dropLast ++ [d.lastName t] := by
  have hne : d.namesOf t ≠ [] := splitOn_ne_nil _ _
  rw [lastName, List.getLast?_eq_some_getLast hne, Option.getD_some, List.dropLast_concat_getLast]

theorem lastPlace_eq (d : Disk) (t : Text) :
    d.lastPlace t = (d.follow [] (d.namesOf (Path.dropSlashes t))).map
      fun p => (p, d.lastName (Path.dropSlashes t)) := by
  rw [lastPlace, namesOf_eq, follow_append]
  simp only [List.getLast?_concat, List.dropLast_concat, Option.getD_some]
  cases d.follow [] (d.namesOf (Path.dropSlashes t)).dropLast with
  | error cause => rfl
  | ok p =>
    simp only [bind, Except.bind]
    cases d.follow p [d.lastName (Path.dropSlashes t)] <;> rfl

/-- A file name is looked up in a directory, and nowhere else. -/
theorem follow_name (d : Disk) (dir : Text) {name : Text} (hname : IsFileName name) :
    d.follow [] (d.namesOf (dir ++ "/" ++ name)) = (d.directoryAt dir).bind fun p =>
      if byteSize name > nameLimit then .error .nameTooLong else .ok (p ++ [.ofText name]) := by
  rw [namesOf_append d dir hname, follow_append, directoryAt]
  cases d.follow [] ((Path.folder d.work dir).splitOn Path.slash) with
  | error cause => rfl
  | ok p =>
    simp only [Except.bind, follow]
    cases d.item? p with
    | none => rfl
    | some item =>
      cases item with
      | file content => rfl
      | directory => simp [hname.notEmpty, hname.notHere, hname.notAbove]

theorem filePlace_eq (d : Disk) (dir : Text) {name : Text} (hname : IsFileName name) :
    d.filePlace (dir ++ "/" ++ name) = (d.directoryAt dir).bind (d.fileIn name) := by
  have hdots : isDots name = false := by simp [isDots, hname.notHere, hname.notAbove]
  have hlast : (dir ++ "/" ++ name).getLast? ≠ some Path.slash := by
    intro h
    rw [List.getLast?_append_of_ne_nil _ hname.notEmpty] at h
    exact hname.noSlash (List.mem_of_getLast? h)
  have hplace : d.lastPlace (dir ++ "/" ++ name)
      = (d.follow [] (d.namesOf (dir ++ "/" ++ name))).map fun p => (p, name) := by
    rw [lastPlace_eq, Path.dropSlashes_append hname, lastName, namesOf_append d dir hname,
      List.getLast?_concat, Option.getD_some]
  rw [filePlace, hplace, follow_name d dir hname]
  cases d.directoryAt dir with
  | error cause => rfl
  | ok p =>
    by_cases hsize : byteSize name > nameLimit
    · simp [Except.bind, Except.map, fileIn, hsize, bind]
    · simp only [Except.bind, Except.map, fileIn, if_neg hsize, bind, hdots, hlast,
        Bool.or_eq_true, decide_eq_true_eq, Bool.false_eq_true, false_or]
      split <;> rfl

/-! ## Opening files -/

theorem writeText_eq (d : Disk) (t text : Text) :
    d.writeText t text = match d.open? t with
      | .error e => (d, .error e)
      | .ok p => d.writeAt p [text] := rfl

theorem unlocked_ok {d : Disk} {p q : Place} (h : d.unlocked p = .ok q) : p = q := by
  unfold unlocked at h
  split at h
  · cases h
  · cases h
    rfl

theorem ok_of_open_ok {d : Disk} {dir name : Text} {p : Place} (hname : IsFileName name)
    (h : d.open? (dir ++ "/" ++ name) = .ok p) :
    ∃ q, d.directoryAt dir = .ok q ∧ byteSize name ≤ nameLimit ∧ p = q ++ [.ofText name] ∧
      d.item? p ≠ some .directory := by
  obtain ⟨-, -, h⟩ := ok_of_bind_ok h
  rw [filePlace_eq d dir hname] at h
  replace h := ok_of_mapError h
  obtain ⟨q, hdir, h⟩ := ok_of_bind_ok h
  unfold fileIn at h
  split at h
  · cases h
  · rename_i hsize
    split at h
    · cases h
    · cases unlocked_ok h
      exact ⟨q, hdir, Nat.not_lt.mp hsize, rfl, by assumption⟩

/-- The bytes of a file. -/
def contentOf? : Item → Option (List UInt8)
  | .file content => some content
  | .directory => none

/-- The place that a path leads to, whether something is there or not. -/
def place? (d : Disk) (t : Text) : Except DiskError Place := do
  checkPath t
  (d.follow [] (d.namesOf t)).mapError (.refused · t)

/-- A file is read where its path leads to. -/
theorem file_eq (d : Disk) (t : Text) :
    d.file? t = match d.place? t with
      | .ok p => (d.item? p).bind contentOf?
      | .error _ => none := by
  unfold file? stat place?
  cases checkPath t with
  | error e => rfl
  | ok a =>
    cases d.follow [] (d.namesOf t) with
    | error cause => rfl
    | ok p =>
      simp only [Except.mapError, bind, Except.bind]
      cases d.item? p with
      | none => rfl
      | some item => cases item <;> rfl

theorem place_ok_iff {d : Disk} {dir name : Text} {p : Place} (hname : IsFileName name) :
    d.place? (dir ++ "/" ++ name) = .ok p ↔
      checkPath (dir ++ "/" ++ name) = .ok () ∧
        ∃ q, d.directoryAt dir = .ok q ∧ byteSize name ≤ nameLimit ∧ p = q ++ [.ofText name] := by
  unfold place?
  rw [follow_name d dir hname]
  cases checkPath (dir ++ "/" ++ name) with
  | error e => simp [bind, Except.bind]
  | ok a =>
    cases d.directoryAt dir with
    | error cause => simp [bind, Except.bind, Except.mapError]
    | ok q =>
      by_cases hsize : byteSize name > nameLimit
      · simp [bind, Except.bind, Except.mapError, hsize, Nat.not_le.mpr hsize]
      · simp [bind, Except.bind, Except.mapError, hsize, Nat.not_lt.mp hsize, eq_comm]

/-- A file is written where its path leads to. -/
theorem place_of_open {d : Disk} {dir name : Text} {p : Place} (hname : IsFileName name)
    (h : d.open? (dir ++ "/" ++ name) = .ok p) : d.place? (dir ++ "/" ++ name) = .ok p := by
  obtain ⟨q, hdir, hsize, hp, -⟩ := ok_of_open_ok hname h
  obtain ⟨a, hcheck, -⟩ := ok_of_bind_ok h
  exact (place_ok_iff hname).mpr ⟨hcheck, q, hdir, hsize, hp⟩

/-- Files of different names stand at different places. -/
theorem name_eq_of_place_ok {d : Disk} {dir name name' : Text} {p : Place} (hname : IsFileName name)
    (hname' : IsFileName name') (h : d.place? (dir ++ "/" ++ name) = .ok p)
    (h' : d.place? (dir ++ "/" ++ name') = .ok p) : name = name' := by
  obtain ⟨-, q, -, -, rfl⟩ := (place_ok_iff hname).mp h
  obtain ⟨-, q', -, -, heq⟩ := (place_ok_iff hname').mp h'
  have hentry := List.singleton_inj.mp (List.append_inj_right' heq rfl)
  exact pathBytes_injective hname.noHalf hname'.noHalf (congrArg EntryName.bytes hentry)

section Writing

variable {d : Disk} {p : Place} (hp : p ≠ []) (hfile : d.item? p ≠ some .directory)
  (content : List UInt8)

include hp hfile

/-- What was followed before a file is written can be followed after it. -/
theorem follow_put {q r : Place} {names : List Text} (h : d.follow q names = .ok r) :
    (d.put p (.file content)).follow q names = .ok r := by
  refine follow_mono ?_ h
  intro s hs
  rw [item_put d hp, if_neg, hs]
  rintro rfl
  exact hfile hs

theorem directoryAt_put {dir : Text} {q : Place} (h : d.directoryAt dir = .ok q) :
    (d.put p (.file content)).directoryAt dir = .ok q := by
  unfold directoryAt at h ⊢
  cases hfollow : d.follow [] ((Path.folder d.work dir).splitOn Path.slash) with
  | error cause =>
    rw [hfollow] at h
    cases h
  | ok r =>
    rw [hfollow] at h
    rw [show (d.put p (.file content)).work = d.work from rfl,
      follow_put hp hfile content hfollow]
    simp only at h ⊢
    cases hr : d.item? r with
    | none =>
      rw [hr] at h
      cases h
    | some item =>
      cases item with
      | file old =>
        rw [hr] at h
        cases h
      | directory =>
        have hne : r ≠ p := by
          rintro rfl
          exact hfile hr
        rw [hr] at h
        rw [item_put d hp, if_neg hne, hr]
        exact h

end Writing

section Beside

variable {d : Disk} {dir name : Text} {p : Place} (hname : IsFileName name)
  (h : d.open? (dir ++ "/" ++ name) = .ok p) (content : List UInt8) {other : Text}
  (hother : IsFileName other)

include hname h hother

/-- Writing a file in a directory does not change which files of it can be written. -/
theorem open_put :
    (d.put p (.file content)).open? (dir ++ "/" ++ other) = d.open? (dir ++ "/" ++ other) := by
  obtain ⟨q, hdir, -, rfl, hfile⟩ := ok_of_open_ok hname h
  have hne : q ++ [.ofText name] ≠ [] := by simp
  unfold open?
  rw [filePlace_eq _ dir hother, filePlace_eq _ dir hother, hdir,
    directoryAt_put hne hfile content hdir]
  -- the written place held no directory before, and holds none now
  have hitem : (d.put (q ++ [.ofText name]) (.file content)).item? (q ++ [.ofText other])
      = some .directory ↔ d.item? (q ++ [.ofText other]) = some .directory := by
    rw [item_put d hne]
    split
    · rename_i heq
      rw [heq]
      simp [hfile]
    · rfl
  simp only [Except.bind, fileIn, hitem]
  rfl

/-- Nor does it change where the files of the directory stand. -/
theorem place_put :
    (d.put p (.file content)).place? (dir ++ "/" ++ other) = d.place? (dir ++ "/" ++ other) := by
  obtain ⟨q, hdir, -, rfl, hfile⟩ := ok_of_open_ok hname h
  have hne : q ++ [.ofText name] ≠ [] := by simp
  unfold place?
  rw [follow_name _ dir hother, follow_name _ dir hother, hdir,
    directoryAt_put hne hfile content hdir]

end Beside

/-! ## Paths that cannot be handed over -/

/-- Why a path cannot be handed over to a disk, whatever is on the disk. -/
def blocked? (t : Text) : Option Stop :=
  match t.pathError? with
  | some e => some (.unencodable e)
  | none => if .char '\x00' ∈ t then some .nullByte else none

/-- The stop that a result makes. -/
def stopOf? {α : Type} : Except DiskError α → Option Stop
  | .ok _ => none
  | .error e => e.stop?

theorem stopOf_checkPath (t : Text) : stopOf? (checkPath t) = blocked? t := by
  unfold checkPath blocked?
  cases t.pathError? with
  | some e => rfl
  | none =>
    simp only [List.contains_iff_mem]
    by_cases hnull : .char '\x00' ∈ t
    · rw [if_pos hnull, if_pos hnull]
      rfl
    · rw [if_neg hnull, if_neg hnull]
      by_cases hempty : t.isEmpty = true
      · rw [if_pos hempty]
        rfl
      · rw [if_neg hempty]
        by_cases hsize : byteSize t > pathLimit
        · rw [if_pos hsize]
          rfl
        · rw [if_neg hsize]
          rfl

theorem stopOf_open (d : Disk) (t : Text) : stopOf? (d.open? t) = blocked? t := by
  rw [← stopOf_checkPath, open?]
  cases checkPath t with
  | error e => rfl
  | ok u =>
    cases d.filePlace t with
    | error cause => rfl
    | ok p => rfl

end Disk

/-- Glyphs that are no halves behind a text do not change what is wrong with its halves. -/
theorem errorAt_append {bad : Glyph → Bool} (hbad : ∀ g, g.isHalf = false → bad g = false)
    (t : Text) {more : Text} (hmore : more.NoHalf) : (t ++ more).errorAt? bad = t.errorAt? bad := by
  have hdrop : more.dropWhile (fun g => !bad g) = [] := by
    rw [List.dropWhile_eq_nil_iff]
    intro g hg
    simp [hbad g (hmore g hg)]
  have htake : more.takeWhile Glyph.isHalf = [] := by
    cases more with
    | nil => rfl
    | cons g rest => simp [hmore g List.mem_cons_self]
  unfold Text.errorAt?
  rw [List.dropWhile_append]
  cases hrest : t.dropWhile fun g => !bad g with
  | nil => simp [hdrop]
  | cons g rest =>
    have hcount : (rest ++ more).takeWhile Glyph.isHalf = rest.takeWhile Glyph.isHalf := by
      rw [List.takeWhile_append, htake]
      split
      · rename_i hlength
        rw [List.append_nil]
        exact ((List.takeWhile_prefix _).eq_of_length hlength).symm
      · rfl
    have hposition :
        (t ++ more).length - ((rest ++ more).length + 1) = t.length - (rest.length + 1) := by
      rw [List.length_append, List.length_append]
      omega
    simp only [List.isEmpty_cons, Bool.false_eq_true, if_false, List.cons_append, hcount, hposition]

theorem pathError_append (t : Text) {more : Text} (hmore : more.NoHalf) :
    (t ++ more).pathError? = t.pathError? :=
  errorAt_append (fun g hg => by simp [Glyph.isUnpathable, hg]) t hmore

theorem Disk.blocked_append (dir : Text) {name : Text} (hname : IsFileName name) :
    blocked? (dir ++ "/" ++ name) = blocked? dir := by
  have hhalf : Text.NoHalf (Text.ofString "/" ++ name) :=
    (Text.noHalf_append _ _).mpr ⟨Text.noHalf_ofString _, hname.noHalf⟩
  have hnull : .char '\x00' ∈ dir ++ "/" ++ name ↔ .char '\x00' ∈ dir := by
    simp [hname.noNull, Text.ofString]
  unfold blocked?
  rw [List.append_assoc, pathError_append dir hhalf, ← List.append_assoc]
  simp only [hnull]

end BlockScript
