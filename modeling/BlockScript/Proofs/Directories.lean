-- The directory of a project. It is spelled out name by name, so the files in
-- its output directory are apart from its manifest, and an output directory that
-- is there is neither made again nor changed.
import BlockScript.Proofs.ManifestSafety

namespace BlockScript

/-! ## Names -/

namespace Path

/-- A name that a path can be spelled with: it leads one step down. -/
structure IsName (name : Text) : Prop where
  noSlash : slash ∉ name
  notEmpty : name ≠ []
  notHere : name ≠ Text.ofString "."
  notAbove : name ≠ Text.ofString ".."

theorem IsName.of_fileName {name : Text} (h : IsFileName name) : IsName name :=
  ⟨h.noSlash, h.notEmpty, h.notHere, h.notAbove⟩

theorem not_mem_of_mem_splitOn {mark : Glyph} {t piece : Text} (h : piece ∈ t.splitOn mark) :
    mark ∉ piece := by
  induction t generalizing piece with
  | nil => simp_all [Text.splitOn]
  | cons g rest ih =>
    obtain ⟨first, pieces, hpieces⟩ := List.exists_cons_of_ne_nil (splitOn_ne_nil mark rest)
    rw [hpieces] at ih
    simp only [Text.splitOn, hpieces] at h
    split at h
    · rcases List.mem_cons.mp h with rfl | h
      · simp
      · exact ih h
    · rename_i hg
      rcases List.mem_cons.mp h with rfl | h
      · simpa [Ne.symm hg] using ih List.mem_cons_self
      · exact ih (List.mem_cons_of_mem _ h)

theorem splitOn_joined {names : List Text} (hne : names ≠ []) (h : ∀ n ∈ names, slash ∉ n) :
    (Text.joined "/" names).splitOn slash = names := by
  induction names with
  | nil => exact absurd rfl hne
  | cons name rest ih =>
    obtain ⟨hname, hrest⟩ := List.forall_mem_cons.mp h
    cases rest with
    | nil => exact splitOn_of_not_mem hname
    | cons second rest =>
      have hjoined : Text.joined "/" (name :: second :: rest)
          = name ++ slash :: Text.joined "/" (second :: rest) := by
        simp [Text.joined, slash, Text.ofString]
      rw [hjoined, splitOn_marked, splitOn_of_not_mem hname, ih (by simp) hrest]
      rfl

theorem tidyNames_append (done names more : List Text) :
    tidyNames done (names ++ more) = tidyNames (tidyNames done names).reverse more := by
  induction names generalizing done with
  | nil => simp [tidyNames]
  | cons name rest ih =>
    simp only [List.cons_append, tidyNames]
    split
    · exact ih done
    · split
      · exact ih done.tail
      · exact ih (name :: done)

theorem tidyNames_of_names {names : List Text} (h : ∀ n ∈ names, IsName n) (done : List Text) :
    tidyNames done names = done.reverse ++ names := by
  induction names generalizing done with
  | nil => simp [tidyNames]
  | cons name rest ih =>
    obtain ⟨hname, hrest⟩ := List.forall_mem_cons.mp h
    rw [tidyNames, if_neg (by simp [hname.notEmpty, hname.notHere]), if_neg hname.notAbove,
      ih hrest]
    simp

theorem isName_of_mem_tidyNames {done names : List Text} (hdone : ∀ n ∈ done, IsName n)
    (hnames : ∀ n ∈ names, slash ∉ n) : ∀ n ∈ tidyNames done names, IsName n := by
  induction names generalizing done with
  | nil => simpa [tidyNames] using hdone
  | cons name rest ih =>
    obtain ⟨hname, hrest⟩ := List.forall_mem_cons.mp hnames
    rw [tidyNames]
    split
    · exact ih hdone hrest
    · rename_i hhere
      simp only [Bool.or_eq_true, List.isEmpty_iff, decide_eq_true_eq, not_or] at hhere
      split
      · exact ih (fun n hn => hdone n (List.mem_of_mem_tail hn)) hrest
      · rename_i habove
        exact ih (List.forall_mem_cons.mpr ⟨⟨hname, hhere.1, hhere.2, habove⟩, hdone⟩) hrest

/-! ## Spelled paths -/

/-- The front of an absolute path. -/
def IsRoot (root : Text) : Prop := root = "/" ∨ root = "//"

theorem isRoot_rootOf (t : Text) : IsRoot (rootOf t) := by
  unfold rootOf IsRoot
  split <;> simp

/-- An absolute path, spelled with its names. -/
def spelled (root : Text) (names : List Text) : Text := root ++ Text.joined "/" names

theorem tidy_eq (t : Text) :
    tidy t = spelled (rootOf t) (tidyNames [] (t.splitOn slash)) := rfl

theorem joined_concat {names : List Text} (hne : names ≠ []) (name : Text) :
    Text.joined "/" (names ++ [name]) = Text.joined "/" names ++ "/" ++ name := by
  induction names with
  | nil => exact absurd rfl hne
  | cons first rest ih =>
    cases rest with
    | nil => rfl
    | cons second rest =>
      have hrest := ih (by simp)
      simp only [List.cons_append, Text.joined, List.append_assoc] at hrest ⊢
      rw [hrest]

theorem spelled_concat (root : Text) {names : List Text} (hne : names ≠ []) (name : Text) :
    spelled root (names ++ [name]) = spelled root names ++ "/" ++ name := by
  rw [spelled, joined_concat hne, spelled]
  simp

theorem spelled_append (root : Text) (names : List Text) (name : Text) :
    ∃ rest, spelled root (names ++ [name]) = spelled root names ++ rest := by
  by_cases hne : names = []
  · exact ⟨name, by simp [hne, spelled, Text.joined]⟩
  · exact ⟨"/" ++ name, by rw [spelled_concat root hne, List.append_assoc]⟩

theorem last_spelled (root : Text) {names : List Text} (hnames : ∀ n ∈ names, IsName n)
    (hne : names ≠ []) : (spelled root names).getLast? ≠ some slash := by
  obtain ⟨init, name, rfl⟩ := (List.eq_nil_or_concat' names).resolve_left hne
  have hname := hnames name (by simp)
  have hlast : ∀ front : Text, (front ++ name).getLast? ≠ some slash := by
    intro front h
    rw [List.getLast?_append_of_ne_nil _ hname.notEmpty] at h
    exact hname.noSlash (List.mem_of_getLast? h)
  by_cases hinit : init = []
  · subst hinit
    exact hlast root
  · rw [spelled_concat root hinit]
    exact hlast _

section Spelled

variable {root : Text} (hroot : IsRoot root)

include hroot

/-- A spelled path is taken apart into its names, with blanks for the slashes in front. -/
theorem splitOn_spelled {names : List Text} (hnames : ∀ n ∈ names, IsName n) :
    ∃ blanks : List Text, (∀ b ∈ blanks, b = []) ∧
      (spelled root names).splitOn slash = blanks ++ names := by
  obtain ⟨blanks, hblanks, hsplit⟩ : ∃ blanks : List Text, (∀ b ∈ blanks, b = []) ∧
      (Text.joined "/" names).splitOn slash = blanks ++ names := by
    by_cases hne : names = []
    · exact ⟨[[]], by simp, by rw [hne]; rfl⟩
    · exact ⟨[], by simp, splitOn_joined hne fun n hn => (hnames n hn).noSlash⟩
  rcases hroot with rfl | rfl
  · refine ⟨[] :: blanks, by simpa using hblanks, ?_⟩
    change Text.splitOn slash ([] ++ slash :: Text.joined "/" names) = _
    rw [splitOn_marked, hsplit]
    rfl
  · refine ⟨[] :: [] :: blanks, by simpa using hblanks, ?_⟩
    change Text.splitOn slash ([] ++ slash :: ([] ++ slash :: Text.joined "/" names)) = _
    rw [splitOn_marked, splitOn_marked, hsplit]
    rfl

theorem spelled_ne_nil (names : List Text) : spelled root names ≠ [] := by
  rcases hroot with rfl | rfl <;> exact List.cons_ne_nil _ _

theorem isAbsolute_spelled (names : List Text) : isAbsolute (spelled root names) = true := by
  rcases hroot with rfl | rfl <;> rfl

theorem tidyNames_spelled {names : List Text} (hnames : ∀ n ∈ names, IsName n) :
    tidyNames [] ((spelled root names).splitOn slash) = names := by
  obtain ⟨blanks, hblanks, hsplit⟩ := splitOn_spelled hroot hnames
  have hskip : tidyNames [] blanks = [] := by
    clear hsplit
    induction blanks with
    | nil => rfl
    | cons b rest ih =>
      obtain ⟨rfl, hrest⟩ := List.forall_mem_cons.mp hblanks
      exact ih hrest
  rw [hsplit, tidyNames_append, hskip, tidyNames_of_names hnames]
  rfl

theorem joined_spelled {names : List Text} (hnames : ∀ n ∈ names, IsName n) {name : Text}
    (hname : IsName name) : joined (spelled root names) name = spelled root (names ++ [name]) := by
  have hrelative : ¬ isAbsolute name = true := by
    intro habsolute
    cases name with
    | nil => exact hname.notEmpty rfl
    | cons g rest =>
      rw [isAbsolute_cons, decide_eq_true_eq] at habsolute
      exact hname.noSlash (by simp [habsolute])
  unfold joined
  rw [if_neg hrelative]
  by_cases hne : names = []
  · subst hne
    rw [if_pos]
    · simp [spelled, Text.joined]
    · rcases hroot with rfl | rfl <;> rfl
  · rw [if_neg (by simp [spelled_ne_nil hroot, last_spelled root hnames hne]),
      spelled_concat root hne]

end Spelled

/-! ## Directories of paths -/

theorem splitLast_eq {front name : Text} (hname : slash ∉ name)
    (hfront : front.getLast? = some slash) : (front ++ name).splitLast slash = (front, name) := by
  obtain ⟨before, rfl⟩ := List.getLast?_eq_some_iff.mp hfront
  have htail : ((before ++ [slash] ++ name).reverse.takeWhile (· ≠ slash)).reverse = name := by
    have hpass : ∀ g ∈ name.reverse, decide (g ≠ slash) = true := by
      intro g hg
      rw [decide_eq_true_eq]
      rintro rfl
      exact hname (List.mem_reverse.mp hg)
    rw [List.reverse_append, List.takeWhile_append_of_pos hpass, List.reverse_append]
    simp
  have hlength : (before ++ [slash] ++ name).length - name.length
      = (before ++ [slash]).length := by
    rw [List.length_append]
    omega
  rw [Text.splitLast, htail, hlength, List.take_left]

/-- A spelled path is split before its last name. -/
theorem split_spelled {root : Text} (hroot : IsRoot root) {names : List Text}
    (hnames : ∀ n ∈ names, IsName n) {name : Text} (hname : IsName name) :
    split (spelled root (names ++ [name])) = (spelled root names, name) := by
  by_cases hne : names = []
  · subst hne
    have hlast : (spelled root []).getLast? = some slash := by
      rcases hroot with rfl | rfl <;> rfl
    have hall : (spelled root []).all (· = slash) = true := by
      rcases hroot with rfl | rfl <;> rfl
    have hsplit := splitLast_eq hname.noSlash hlast
    have hspelled : spelled root ([] ++ [name]) = spelled root [] ++ name := by
      simp [spelled, Text.joined]
    rw [split, hspelled, hsplit]
    simp only [hall, if_true]
  · have hlast : (spelled root names ++ [slash]).getLast? = some slash := by simp
    have hend := last_spelled root hnames hne
    have hall : (spelled root names ++ [slash]).all (· = slash) = false := by
      rcases List.eq_nil_or_concat' (spelled root names) with hnil | ⟨front, g, hg⟩
      · rcases hroot with rfl | rfl <;> cases hnil
      · rw [hg, List.getLast?_concat] at hend
        rw [hg, List.all_eq_false]
        exact ⟨g, by simp, by simpa using hend⟩
    have hdrop : dropSlashes (spelled root names ++ [slash]) = spelled root names := by
      have hconcat : dropSlashes (spelled root names ++ [slash])
          = dropSlashes (spelled root names) := by simp [dropSlashes]
      rw [hconcat, Disk.dropSlashes_of_last hend]
    have hspelled : spelled root (names ++ [name]) = spelled root names ++ [slash] ++ name :=
      spelled_concat root hne name
    rw [split, hspelled, splitLast_eq hname.noSlash hlast]
    simp only [hall, hdrop]
    rfl

/-- The directory of a path that leads to more than the root: the names before the last one. -/
theorem directoryOf_eq {work t : Text} {names : List Text} {name : Text}
    (h : tidyNames [] ((joined work t).splitOn slash) = names ++ [name]) :
    (∀ n ∈ names ++ [name], IsName n) ∧
      directoryOf work t = spelled (rootOf (joined work t)) names := by
  have hnames : ∀ n ∈ names ++ [name], IsName n := by
    rw [← h]
    exact isName_of_mem_tidyNames (by simp) fun n hn => not_mem_of_mem_splitOn hn
  obtain ⟨hinit, hlast⟩ := List.forall_mem_append.mp hnames
  refine ⟨hnames, ?_⟩
  rw [directoryOf, tidy_eq, h,
    split_spelled (isRoot_rootOf _) hinit (List.forall_mem_singleton.mp hlast)]

end Path

namespace Disk

/-! ## Disks of one shape -/

/-- Two disks with the same directories and hurdles, and files at the same places. -/
structure SameShape (d d' : Disk) : Prop where
  work : d'.work = d.work
  hurdles : d'.hurdle? = d.hurdle?
  directory : ∀ q, d'.item? q = some .directory ↔ d.item? q = some .directory
  nothing : ∀ q, d'.item? q = none ↔ d.item? q = none

/-- A file that takes the place of a file. -/
theorem sameShape_put {d : Disk} {p : Place} {old : List UInt8} (h : d.item? p = some (.file old))
    (content : List UInt8) : d.SameShape (d.put p (.file content)) := by
  have hp : p ≠ [] := by
    rintro rfl
    cases h
  refine ⟨rfl, rfl, ?_, ?_⟩
  · intro q
    rw [item_put d hp]
    split
    · rename_i heq
      simp [heq, h]
    · rfl
  · intro q
    rw [item_put d hp]
    split
    · rename_i heq
      simp [heq, h]
    · rfl

section Shape

variable {d d' : Disk} (h : d.SameShape d')

include h

theorem SameShape.follow (p : Place) (names : List Text) :
    d'.follow p names = d.follow p names := by
  induction names generalizing p with
  | nil => rfl
  | cons name rest ih =>
    rw [Disk.follow, Disk.follow]
    cases hitem : d.item? p with
    | none => rw [(h.nothing p).mpr hitem]
    | some item =>
      cases item with
      | directory => simp only [(h.directory p).mpr hitem, ih]
      | file content =>
        cases hitem' : d'.item? p with
        | none => rw [(h.nothing p).mp hitem'] at hitem; cases hitem
        | some item' =>
          cases item' with
          | directory => rw [(h.directory p).mp hitem'] at hitem; cases hitem
          | file content' => rfl

theorem SameShape.names (t : Text) : d'.namesOf t = d.namesOf t := by
  rw [namesOf, namesOf, h.work]

/-- The same files can be written on disks of one shape. -/
theorem SameShape.opens (t : Text) : d'.open? t = d.open? t := by
  simp only [open?, filePlace, lastPlace, unlocked, h.names, h.follow, h.directory, h.hurdles]

theorem SameShape.places (t : Text) : d'.place? t = d.place? t := by
  simp only [place?, h.names, h.follow]

end Shape

/-! ## Directories that are there -/

theorem follow_spelled {root : Text} (hroot : Path.IsRoot root) {names : List Text}
    (hnames : ∀ n ∈ names, Path.IsName n) (d : Disk) :
    d.follow [] (d.namesOf (Path.spelled root names)) = d.follow [] names := by
  obtain ⟨blanks, hblanks, hsplit⟩ := Path.splitOn_spelled hroot hnames
  have hskip : d.follow [] blanks = .ok [] := by
    clear hsplit
    induction blanks with
    | nil => rfl
    | cons b rest ih =>
      obtain ⟨rfl, hrest⟩ := List.forall_mem_cons.mp hblanks
      exact ih hrest
  rw [namesOf, Path.joined, if_pos (Path.isAbsolute_spelled hroot names), hsplit, follow_append,
    hskip]
  rfl

theorem isDirectory_iff {d : Disk} {t : Text} :
    d.isDirectory t = true ↔ ∃ p, d.stat t = .ok (p, .directory) := by
  unfold isDirectory
  split
  · rename_i p hstat
    simp [hstat]
  · rename_i hnot
    simp only [Bool.false_eq_true, false_iff, not_exists]
    exact hnot

/-- A directory stays one on a disk that keeps the directories. -/
theorem isDirectory_mono {d d' : Disk} (hwork : d'.work = d.work)
    (hkeeps : ∀ q, d.item? q = some .directory → d'.item? q = some .directory) {t : Text}
    (h : d.isDirectory t = true) : d'.isDirectory t = true := by
  obtain ⟨p, hstat⟩ := isDirectory_iff.mp h
  obtain ⟨hcheck, hfollow, hitem⟩ := stat_ok_iff.mp hstat
  refine isDirectory_iff.mpr ⟨p, stat_ok_iff.mpr ⟨hcheck, ?_, hkeeps p hitem⟩⟩
  rw [namesOf, hwork]
  exact follow_mono hkeeps hfollow

section Ensure

variable {d : Disk} {t : Text} (hlast : t.getLast? ≠ some Path.slash)

include hlast

/-- A directory that is there is not made again. -/
theorem ensureDirectory_there (h : d.isDirectory t = true) :
    d.ensureDirectory t = (d, .ok ()) := by
  obtain ⟨p, hstat⟩ := isDirectory_iff.mp h
  obtain ⟨hcheck, hfollow, hitem⟩ := stat_ok_iff.mp hstat
  have hfree : d.freePlace t = .error .exists := by
    rw [freePlace, lastPlace_eq, dropSlashes_of_last hlast, hfollow]
    simp only [Except.map, bind, Except.bind, hitem, Option.isSome_some, Bool.or_true, if_true]
    rfl
  have hmake : d.makeDirectory t = .error (.refused .exists t) := by
    rw [makeDirectory, hcheck, hfree]
    rfl
  rw [ensureDirectory, hmake]
  simp only [h, if_true]

theorem follow_of_freePlace {p : Place} (h : d.freePlace t = .ok p) :
    d.follow [] (d.namesOf t) = .ok p := by
  rw [freePlace, lastPlace_eq, dropSlashes_of_last hlast] at h
  cases hfollow : d.follow [] (d.namesOf t) with
  | error cause =>
    rw [hfollow] at h
    cases h
  | ok q =>
    rw [hfollow] at h
    simp only [Except.map, bind, Except.bind] at h
    split at h
    · cases h
    · rw [unlocked_ok h]

theorem isDirectory_of_makeDirectory {made : Disk} (h : d.makeDirectory t = .ok made) :
    made.isDirectory t = true := by
  obtain ⟨_, hcheck, hmake⟩ := ok_of_bind_ok h
  obtain ⟨p, hplace, hmake⟩ := ok_of_bind_ok hmake
  cases hmake
  obtain ⟨hfree, hfollow⟩ : d.item? p = none ∧ d.follow [] (d.namesOf t) = .ok p := by
    cases hfreePlace : d.freePlace t with
    | error cause =>
      rw [hfreePlace] at hplace
      cases hplace
    | ok q =>
      rw [hfreePlace] at hplace
      cases hplace
      exact ⟨free_of_freePlace hfreePlace, follow_of_freePlace hlast hfreePlace⟩
  have hp : p ≠ [] := by
    rintro rfl
    cases hfree
  have hkeeps : ∀ q, d.item? q = some .directory →
      (d.put p .directory).item? q = some .directory := by
    intro q hq
    rw [item_put d hp]
    split
    · rfl
    · exact hq
  refine isDirectory_iff.mpr ⟨p, stat_ok_iff.mpr ⟨hcheck, follow_mono hkeeps hfollow, ?_⟩⟩
  rw [item_put d hp, if_pos rfl]

/-- A directory that was ensured is there. -/
theorem isDirectory_of_ensure {d' : Disk} (h : d.ensureDirectory t = (d', .ok ())) :
    d'.isDirectory t = true := by
  unfold ensureDirectory at h
  cases hmake : d.makeDirectory t with
  | ok made =>
    rw [hmake] at h
    cases h
    exact isDirectory_of_makeDirectory hlast hmake
  | error e =>
    rw [hmake] at h
    cases e with
    | refused cause path =>
      simp only at h
      split at h
      · rename_i hthere
        cases h
        exact hthere
      · cases h
    | brokenOff cause => cases h
    | nullByte => cases h
    | unencodable e => cases h

end Ensure

theorem checkPath_ok_iff {t : Text} :
    checkPath t = .ok () ↔
      t.pathError? = none ∧ .char '\x00' ∉ t ∧ t ≠ [] ∧ byteSize t ≤ pathLimit := by
  unfold checkPath
  cases t.pathError? with
  | some e =>
    constructor
    · intro h
      cases h
    · rintro ⟨h, -⟩
      cases h
  | none =>
    simp only [List.contains_iff_mem, true_and]
    by_cases hnull : .char '\x00' ∈ t
    · rw [if_pos hnull]
      constructor
      · intro h
        cases h
      · rintro ⟨hnot, -⟩
        exact absurd hnull hnot
    · rw [if_neg hnull]
      by_cases hempty : t = []
      · subst hempty
        constructor
        · intro h
          cases h
        · rintro ⟨-, hnot, -⟩
          exact absurd rfl hnot
      · rw [if_neg (by simpa using hempty)]
        by_cases hsize : byteSize t > pathLimit
        · rw [if_pos hsize]
          constructor
          · intro h
            cases h
          · rintro ⟨-, -, hnot⟩
            omega
        · rw [if_neg hsize]
          exact ⟨fun _ => ⟨hnull, hempty, by omega⟩, fun _ => rfl⟩

theorem byteSize_append (s t : Text) : byteSize (s ++ t) = byteSize s + byteSize t := by
  simp [byteSize, Text.pathBytes]

theorem checkPath_of_append {s t : Text} (hs : s ≠ []) (h : checkPath (s ++ t) = .ok ()) :
    checkPath s = .ok () := by
  obtain ⟨herror, hnull, -, hsize⟩ := checkPath_ok_iff.mp h
  rw [Text.pathError_eq_none_iff] at herror
  rw [List.mem_append, not_or] at hnull
  rw [byteSize_append] at hsize
  have herror' : s.pathError? = none :=
    Text.pathError_eq_none_iff.mpr fun g hg => herror g (List.mem_append_left _ hg)
  exact checkPath_ok_iff.mpr ⟨herror', hnull.1, hs, by omega⟩

theorem names_concat {names : List Text} (hnames : ∀ n ∈ names, Path.IsName n) {name : Text}
    (hname : Path.IsName name) : ∀ n ∈ names ++ [name], Path.IsName n :=
  List.forall_mem_append.mpr ⟨hnames, List.forall_mem_singleton.mpr hname⟩

section Project

variable {root : Text} (hroot : Path.IsRoot root) {names : List Text}
  (hnames : ∀ n ∈ names, Path.IsName n) {name : Text} (hname : Path.IsName name)

include hroot hnames hname

/-- The directory above one that is there is there too. -/
theorem exists_above {d : Disk} (h : d.isDirectory (Path.spelled root (names ++ [name])) = true) :
    d.exists? (Path.spelled root names) = true := by
  obtain ⟨p, hstat⟩ := isDirectory_iff.mp h
  obtain ⟨hcheck, hfollow, -⟩ := stat_ok_iff.mp hstat
  rw [follow_spelled hroot (names_concat hnames hname), follow_append] at hfollow
  obtain ⟨q, hq, hstep⟩ := ok_of_bind_ok hfollow
  obtain ⟨hdirectory, -⟩ := follow_cons_ok_iff.mp hstep
  have habove : d.stat (Path.spelled root names) = .ok (q, .directory) := by
    refine stat_ok_iff.mpr ⟨?_, ?_, hdirectory⟩
    · obtain ⟨rest, hrest⟩ := Path.spelled_append root names name
      rw [hrest] at hcheck
      exact checkPath_of_append (Path.spelled_ne_nil hroot names) hcheck
    · rw [follow_spelled hroot hnames, hq]
  rw [exists?, habove]

/-- What is done last is to ensure the directory itself. -/
theorem ensured_of_make {d d' : Disk} {fuel : Nat}
    (h : d.makeDirectoriesWithin fuel (Path.spelled root (names ++ [name])) = (d', .ok ())) :
    ∃ between : Disk,
      between.ensureDirectory (Path.spelled root (names ++ [name])) = (d', .ok ()) := by
  cases fuel with
  | zero => exact ⟨d, h⟩
  | succ fuel =>
    obtain ⟨g, rest, rfl⟩ := List.exists_cons_of_ne_nil hname.notEmpty
    have hnotHere : ¬ (g :: rest : Text) = Text.ofString "." := hname.notHere
    rw [makeDirectoriesWithin, Path.split_spelled hroot hnames hname] at h
    simp only [hnotHere, if_false] at h
    split at h
    · exact ⟨d, h⟩
    · split at h
      · exact ⟨_, h⟩
      · exact ⟨_, h⟩
      · cases h

/-- Directories that were made are there in the end. -/
theorem isDirectory_of_make {d d' : Disk}
    (h : d.makeDirectories (Path.spelled root (names ++ [name])) = (d', .ok ())) :
    d'.isDirectory (Path.spelled root (names ++ [name])) = true := by
  have hlast := Path.last_spelled root (names_concat hnames hname) (by simp)
  obtain ⟨between, hensured⟩ := ensured_of_make hroot hnames hname h
  exact isDirectory_of_ensure hlast hensured

/-- A directory that is there is not made again, nor is any above it. -/
theorem makeDirectories_there {d : Disk}
    (h : d.isDirectory (Path.spelled root (names ++ [name])) = true) :
    d.makeDirectories (Path.spelled root (names ++ [name])) = (d, .ok ()) := by
  have habove := exists_above hroot hnames hname h
  have hlast := Path.last_spelled root (names_concat hnames hname) (by simp)
  have hensure := ensureDirectory_there hlast h
  unfold makeDirectories
  cases (Path.spelled root (names ++ [name])).length with
  | zero => exact hensure
  | succ fuel =>
    obtain ⟨g, rest, rfl⟩ := List.exists_cons_of_ne_nil hname.notEmpty
    rw [makeDirectoriesWithin, Path.split_spelled hroot hnames hname]
    simp only [habove, Bool.or_true, if_true]
    exact hensure

end Project

/-! ## Output directories -/

theorem target_spelled {root : Text} (hroot : Path.IsRoot root) {names : List Text}
    (hnames : ∀ n ∈ names, Path.IsName n) (d : Disk) :
    d.target (Path.spelled root names) = names.map .ofText := by
  rw [target, namesOf, Path.joined, if_pos (Path.isAbsolute_spelled hroot names),
    Path.tidyNames_spelled hroot hnames]

end Disk

theorem Path.folder_eq_joined {dir : Text} (h : Path.IsName dir) (home : Text) :
    folder home dir = joined home dir := by
  obtain ⟨g, rest, rfl⟩ := List.exists_cons_of_ne_nil h.notEmpty
  have habsolute : isAbsolute (g :: rest ++ "/") = isAbsolute (g :: rest) := by
    rw [List.cons_append, isAbsolute_cons, isAbsolute_cons]
  rw [folder, joined, habsolute]

/-- The output directory of a project stands right in the directory of its manifest. -/
theorem outputDir_spelled {g : Settings} (hdir : Path.IsName g.outputDir) {d : Disk} {path : Text}
    (hne : d.target path ≠ []) :
    ∃ root names name, Path.IsRoot root ∧ (∀ n ∈ names, Path.IsName n) ∧
      d.target path = (names ++ [name]).map .ofText ∧
      Path.joined (Path.directoryOf d.work path) g.outputDir
        = Path.spelled root (names ++ [g.outputDir]) := by
  have htidy : Path.tidyNames [] (d.namesOf path) ≠ [] := by
    intro hnil
    rw [Disk.target, hnil] at hne
    exact hne rfl
  obtain ⟨names, name, hnames⟩ := (List.eq_nil_or_concat' _).resolve_left htidy
  obtain ⟨hall, hhome⟩ := Path.directoryOf_eq hnames
  have hinit := (List.forall_mem_append.mp hall).1
  have hroot := Path.isRoot_rootOf (Path.joined d.work path)
  refine ⟨_, names, name, hroot, hinit, congrArg (List.map EntryName.ofText) hnames, ?_⟩
  rw [hhome, Path.joined_spelled hroot hinit hdir]

/-- Scripts and error logs in the output directory are apart from the manifest. -/
theorem files_apart {g : Settings} {suffix : Text} (hlogs : g.errorLogSuffix = .str suffix)
    (hsuffix : IsLogSuffix suffix) (hdir : Path.IsName g.outputDir) {d : Disk} {path : Text}
    (hne : d.target path ≠ []) {u : WorkUnit} {base : Text} (hu : u.Filed g base) :
    ∀ file ∈ u.files g,
      d.target (Path.joined (Path.directoryOf d.work path) file) ≠ d.target path := by
  intro file hfile
  obtain ⟨root, names, name, hroot, hnames, htarget, hspelled⟩ := outputDir_spelled hdir hne
  obtain ⟨base', hname, hjoined⟩ : ∃ base', IsFileName base' ∧
      Path.joined (Path.directoryOf d.work path) file
        = Path.folder (Path.directoryOf d.work path) g.outputDir ++ "/" ++ base' := by
    rw [WorkUnit.files, logFile_eq hlogs] at hfile
    rcases List.mem_cons.mp hfile with rfl | hfile
    · exact ⟨_, joined_path hu _⟩
    · obtain rfl : file = u.logPath suffix := by simpa [Except.toOption] using hfile
      exact ⟨_, joined_logPath hu _ hsuffix⟩
  have hall := Disk.names_concat (Disk.names_concat hnames hdir) (.of_fileName hname)
  rw [hjoined, Path.folder_eq_joined hdir, hspelled, ← Path.spelled_concat root (by simp),
    Disk.target_spelled hroot hall, htarget]
  intro heq
  have hlength := congrArg List.length heq
  simp at hlength

end BlockScript
