-- Bodies without waits. If no block of a body counts as one that waits, no line made
-- from the body waits for anything but the runtime, whatever its blocks hold.
import BlockScript.Proofs.LineWords

namespace BlockScript

/-! ## Words that are no wait -/

theorem ne_of_opens {c : Char} {name t : Text} (h : Text.opens (· == c) name = true)
    (ht : Text.opens (· == c) t = false) : name ≠ t := by
  rintro rfl
  rw [h] at ht
  cases ht

/-- No word of the runtime is the word of a wait, and no name is. -/
theorem vocabulary_unwaited : Vocabulary (· ≠ Text.ofString "await") where
  word := by decide
  paramName _ _ _ h := ne_of_opens (c := 'p') (opens_make rfl h) rfl
  localName _ _ h := ne_of_opens (c := 'v') (opens_make rfl h) rfl
  functionName _ _ _ h := ne_of_opens (c := 'f') (opens_make rfl h) rfl

theorem speech_unwaited : Speech (· ≠ Text.ofString "await") where
  word := vocabulary_unwaited.word
  language := by decide

theorem counter_unwaited (level : Int) : Name.counter level ≠ Text.ofString "await" :=
  ne_of_opens (c := '_') rfl rfl

theorem limit_unwaited (level : Int) : Name.limit level ≠ Text.ofString "await" :=
  ne_of_opens (c := '_') rfl rfl

/-! ## Bodies -/

/-- If a body does not count as one that waits, no block of it does. -/
theorem not_suspends_of_walk {body : List Node} (h : suspends body = .ok false) :
    ∀ n ∈ Node.walkAll body, n.suspends = false := by
  unfold suspends at h
  split at h
  · rename_i hnone
    intro n hn
    have hplain := List.find?_eq_none.mp hnone n hn
    simp only [Bool.or_eq_true, not_or, Bool.not_eq_true] at hplain
    exact hplain.1
  · obtain ⟨_, -, h⟩ := ok_of_bind_ok h
    cases h

/-- Where no tag holds the end of a line, no id holds a newline and no block of the body counts as
one that waits, the word of a wait stands, outside of texts and comments, only on lines that just
yield. -/
theorem only_yields_wait {body : List Node} (hline : ∀ n ∈ Node.walkAll body, n.OnOneLine .all)
    (hcount : suspends body = .ok false) {s : Scope} {made : List Stmt}
    (hmade : Node.actionsAll {} body s = .ok made) (width : Nat) (depth : Int) :
    renderLines width (Stmt.linesAll depth made) =
      ((Stmt.linesAll depth made).map (Line.shown width)).flatMap (· ++ Text.ofString "\n") ∧
    ∀ l ∈ Stmt.linesAll depth made, (l.shown width).NoNewline ∧
      ∃ words, lineWords? (l.shown width) = some words ∧
        (Text.ofString "await" ∈ words →
          l.shown width = Text.spaces (width * l.depth.toNat) ++ "await Entry.yield();") := by
  have hform : Stmt.AllWellFormed .all made := wellFormed_actionsAll hline s made hmade
  have hplain := not_suspends_of_walk hcount
  have hwords : Stmt.AllSpoken (· ≠ Text.ofString "await") made := by
    refine spoken_actionsAll speech_unwaited (vocabulary_unwaited.nodesSpoken ?_) ?_ made hmade
    · intro n hn hsuspends
      rw [hplain n hn] at hsuspends
      cases hsuspends
    · exact fun level _ => ⟨counter_unwaited level, limit_unwaited level⟩
  refine ⟨renderLines_eq width _, fun l hl => ?_⟩
  refine ⟨Line.noNewline_shown (Stmt.noNewline_lines hform depth l hl) width, ?_⟩
  have hspoken : l.Spoken (· ≠ Text.ofString "await") width :=
    Stmt.spoken_linesAll speech_unwaited depth made hform hwords l hl
  obtain ⟨words, hread, ⟨hyield, -⟩ | hpass⟩ := hspoken
  · exact ⟨words, hread, fun _ => congrArg (_ ++ ·) hyield⟩
  · exact ⟨words, hread, fun hmem => absurd rfl (hpass _ hmem)⟩

/-- A loop whose blocks have the word of a wait in a text and in a comment. -/
def idleLoop : Node :=
  .mk (.str "repeat_basic") [.literal (.int 3)]
    [[.mk (.str "dialog") [.literal (.str "await")] [] {}, .mk (.str "await x") [] [] {}]] {}

def idleLoopText : Text :=
  "for (let _i0 = 0, _n0 = 3; _i0 < _n0; _i0++) \x7b\n" ++ "  self.say(\"await\");\n"
    ++ "  // TODO: unsupported block 'await x'\n" ++ "  await Entry.yield();\n\x7d\n"

theorem idleLoop_onOneLine : ∀ n ∈ Node.walkAll [idleLoop], n.OnOneLine .all := by
  obtain ⟨loop, say, unknown, hnodes, hloop, hsay, hunknown⟩ : ∃ loop say unknown,
      Node.walkAll [idleLoop] = [loop, say, unknown] ∧
      loop.OnOneLine .all ∧ say.OnOneLine .all ∧ unknown.OnOneLine .all := by
    refine ⟨_, _, _, rfl, ?_, ?_, ?_⟩ <;>
      exact onOneLine_of_plain rfl (by decide) (by decide) (by decide) (by decide)
  rw [hnodes]
  simp [hloop, hsay, hunknown]

theorem idle_loop_waits_for_the_runtime :
    (∀ n ∈ Node.walkAll [idleLoop], n.OnOneLine .all) ∧ suspends [idleLoop] = .ok false ∧
      ∃ made, Node.actionsAll {} [idleLoop] {} = .ok made ∧
        renderLines 2 (Stmt.linesAll 0 made) = idleLoopText ∧
        ∀ l ∈ Stmt.linesAll 0 made, ∃ words, lineWords? (l.shown 2) = some words ∧
          (Text.ofString "await" ∈ words →
            l.shown 2 = Text.spaces (2 * l.depth.toNat) ++ "await Entry.yield();") := by
  have hcount : suspends [idleLoop] = .ok false := rfl
  obtain ⟨made, hmade, htext⟩ := exists_of_any (x := Node.actionsAll {} [idleLoop] {})
    (p := fun made => renderLines 2 (Stmt.linesAll 0 made) = idleLoopText) (by decide +kernel)
  refine ⟨idleLoop_onOneLine, hcount, made, hmade, of_decide_eq_true htext, fun l hl => ?_⟩
  exact ((only_yields_wait idleLoop_onOneLine hcount hmade 2 0).2 l hl).2

/-- A block that waits for nothing, with a carriage return in its tag. -/
def returningTag : Node := .mk (.str "x\rawait boom();//") [] [] {}

/-- There is no newline in the tag, but the comment ends at the carriage return, and code that waits
stands behind it. -/
theorem carriage_return_leaves_a_wait :
    Text.NoNewline "x\rawait boom();//" ∧ suspends [returningTag] = .ok false ∧
      ∃ made, Node.actionsAll {} [returningTag] {} = .ok made ∧
        renderLines 2 (Stmt.linesAll 0 made)
          = "// TODO: unsupported block 'x" ++ Text.ofString "\r" ++ "await boom();" ++ "//'\n" ∧
        Glyph.endsLine (.char '\r') = true ∧
        lineWords? "await boom();" = some (["await", "boom"] : List Text) ∧
        Text.ofString "await boom();" ≠ yieldText := by
  refine ⟨by decide, rfl, _, rfl, by decide +kernel, rfl, by decide +kernel, by decide⟩

end BlockScript
