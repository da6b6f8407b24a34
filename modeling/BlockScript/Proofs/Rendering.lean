-- The text of a value block, read by the grammar of expressions, is the tree
-- that the block stands for. Whole-number arithmetic therefore has the value
-- that the blocks have.
import BlockScript.Proofs.Meaning
import Mathlib.Data.List.TakeWhile

namespace BlockScript

/-! ## Written arguments -/

/-- What an argument compiles to when no block is extended. -/
def Argument.made (object : Json) : Argument → Outcome
  | .literal v => .ok (.ofLiteral v)
  | .block n => n.value {} object

/-- The text of an argument at a place. -/
def Argument.written (object : Json) (place : Int) (a : Argument) : Except Obstacle Text :=
  (a.made object).map (Expr.render place)

theorem slots_cons (object : Json) (a : Argument) (rest : List Argument) :
    Argument.slots {} object (a :: rest)
      = ⟨a, a.made object⟩ :: Argument.slots {} object rest := by
  cases a <;> rfl

theorem forms_made {object : Json} {a : Argument} (hids : Argument.idsOnOneLine [a] = true)
    {e : Expr} (h : a.made object = .ok e) : e.Forms (a.tree? object) := by
  cases a with
  | literal v =>
    cases h
    exact ⟨Expr.wellFormed_ofLiteral v, by rw [Expr.tree_ofLiteral]; rfl⟩
  | block n =>
    simp only [Argument.idsOnOneLine, Bool.and_true] at hids
    exact forms_value n hids e h

/-! ## Whole-number arithmetic -/

/-- What an operator does with whole numbers, if it gives a whole number again. -/
def Operator.whole? : Operator → Option (Int → Int → Int)
  | .plus => some (· + ·)
  | .minus => some (· - ·)
  | .times => some (· * ·)
  | _ => none

/-- The value of a tree of sums, differences and products of whole numbers. -/
def Tree.integer? : Tree → Option Int
  | .number (.decimal ds none none) => some (Nat.ofDigitChars 10 ds 0)
  | .binary op left right => do return (← op.whole?) (← left.integer?) (← right.integer?)
  | _ => none

/-- Blocks of whole-number arithmetic and their values. -/
inductive Arithmetic : Argument → Int → Prop
  | whole (n : Nat) : Arithmetic (.literal (.int n)) n
  | digits (ds : List Char) (hne : ds ≠ []) (h : ∀ c ∈ ds, c.isDigit = true) :
    Arithmetic (.literal (.str (Text.ofChars ds))) (Nat.ofDigitChars 10 ds 0)
  | number {v : Json} {n : Int} (h : Arithmetic (.literal v) n) (more : List Argument)
      (branches : List (List Node)) (labels : Labels) :
    Arithmetic (.block (.mk (.str "number") (.literal v :: more) branches labels)) n
  | operation (op : Operator) {f : Int → Int → Int} (hop : op.whole? = some f) {a b : Argument}
      {m n : Int} (ha : Arithmetic a m) (hb : Arithmetic b n) (branches : List (List Node))
      (labels : Labels) :
    Arithmetic
      (.block (.mk (.str "calc_basic") [a, .literal (.str op.word), b] branches labels)) (f m n)

theorem ofDigitChars_trimLeadingZeros (ds : List Char) :
    Nat.ofDigitChars 10 (trimLeadingZeros ds) 0 = Nat.ofDigitChars 10 ds 0 := by
  have hdrop : ∀ cs : List Char,
      Nat.ofDigitChars 10 (cs.dropWhile (· = '0')) 0 = Nat.ofDigitChars 10 cs 0 := by
    intro cs
    induction cs with
    | nil => rfl
    | cons c cs ih =>
      by_cases hc : c = '0'
      · subst hc
        simpa [Nat.ofDigitChars_cons] using ih
      · simp [hc]
  unfold trimLeadingZeros
  split
  · rename_i hnil
    rw [← hdrop ds, hnil]
    rfl
  · exact hdrop ds

/-- Digits spell the number with no sign that they are, without its leading zeros. -/
theorem read_digits {ds : List Char} (hne : ds ≠ []) (h : ∀ c ∈ ds, c.isDigit = true) :
    Numeral.read? (Text.ofChars ds)
      = some { negative := false, magnitude := .decimal (trimLeadingZeros ds) none none } := by
  obtain ⟨c, cs, rfl⟩ := List.exists_cons_of_ne_nil hne
  have hc := h c (by simp)
  have hline : .char '\n' ∉ Text.ofChars (c :: cs) := by
    intro hmem
    obtain ⟨d, hd, heq⟩ := List.mem_map.mp hmem
    exact ne_of_class (h d hd) (by decide) (Glyph.char.inj heq)
  have hsign : readSign (c :: cs) = (false, c :: cs) := by
    have h1 : c ≠ '-' := ne_of_class hc (by decide)
    have h2 : c ≠ '+' := ne_of_class hc (by decide)
    simp [readSign, h1, h2]
  have hradix : Magnitude.readRadix? (c :: cs) = none := by
    unfold Magnitude.readRadix?
    split
    · rename_i mark digits heq
      cases heq
      have hmark : ∀ d, d.isDigit = false → mark ≠ d := fun d => ne_of_class (h mark (by simp))
      have hnone : radixDigit? mark = none := by
        simp [radixDigit?, hmark 'x' (by decide), hmark 'X' (by decide), hmark 'o' (by decide),
          hmark 'O' (by decide), hmark 'b' (by decide), hmark 'B' (by decide)]
      rw [hnone]
    · rfl
  have hdecimal : Magnitude.readDecimal? (c :: cs)
      = some (.decimal (trimLeadingZeros (c :: cs)) none none) := by
    rw [readDecimal_eq, List.takeWhile_eq_self_iff.mpr h, List.dropWhile_eq_nil_iff.mpr h]
    rfl
  rw [read_eq, dropFinalNewline_eq hline, chars_ofChars, Option.bind_some, hsign, hradix, hdecimal]
  rfl

theorem integer_ofLiteral {v : Json} {n : Int} (h : Arithmetic (.literal v) n) :
    (Expr.ofLiteral v).tree.integer? = some n := by
  cases h with
  | whole n =>
    have hsign : ¬ (n : Int) < 0 := by omega
    simp [Expr.ofLiteral, Expr.tree, Json.tree, Tree.signed, hsign, Tree.integer?,
      Nat.ofDigitChars_ten_toDigits]
  | digits ds hne h =>
    simp [Expr.ofLiteral, read_digits hne h, Expr.tree, Numeral.tree, Tree.signed, Tree.integer?,
      ofDigitChars_trimLeadingZeros]

/-- No number names an operator. -/
theorem operatorIn_arithmetic {a : Argument} {n : Int} (h : Arithmetic a n) (made : Outcome) :
    operatorIn arithmeticKeys ⟨a, made⟩ = .ok none := by
  cases h with
  | digits ds hne h =>
    obtain ⟨c, cs, rfl⟩ := List.exists_cons_of_ne_nil hne
    have hword : ∀ op : Operator, Text.opens Char.isDigit op.word = false := by
      intro op
      cases op <;> decide
    have hkey : lookup? (Text.ofChars (c :: cs)) arithmeticKeys = none := by
      have hlists : Lists arithmeticKeys [.plus, .minus, .times, .divide] := rfl
      rw [lookup_eq_find hlists, List.find?_eq_none]
      intro op _ heq
      have hc : Text.opens Char.isDigit (Text.ofChars (c :: cs)) = true := h c (by simp)
      rw [of_decide_eq_true heq, hword op] at hc
      cases hc
    simp only [operatorIn, hkey]
  | _ => rfl

/-- Arithmetic compiles to an expression with its value. -/
theorem made_arithmetic (object : Json) {a : Argument} {n : Int} (h : Arithmetic a n) :
    ∃ e, a.made object = .ok e ∧ e.tree.integer? = some n := by
  induction h with
  | whole n => exact ⟨_, rfl, integer_ofLiteral (.whole n)⟩
  | digits ds hne h => exact ⟨_, rfl, integer_ofLiteral (.digits ds hne h)⟩
  | @number v n h more branches labels =>
    have hmade : Argument.made object
        (.block (.mk (.str "number") (.literal v :: more) branches labels)) =
          .ok (.ofLiteral v) := by
      cases h with
      | whole n => rfl
      | digits ds hne h =>
        obtain ⟨c, cs, rfl⟩ := List.exists_cons_of_ne_nil hne
        rfl
    exact ⟨_, hmade, integer_ofLiteral h⟩
  | @operation op f hop a b m n ha hb branches labels iha ihb =>
    obtain ⟨left, hleft, hm⟩ := iha
    obtain ⟨right, hright, hn⟩ := ihb
    refine ⟨.binary op left right, ?_, by simp [Expr.tree, Tree.integer?, hop, hm, hn]⟩
    have hkey : ∀ made,
        operatorIn arithmeticKeys ⟨.literal (.str op.word), made⟩ = .ok (some op) := by
      intro made
      cases op with
      | plus | minus | times => rfl
      | _ => cases hop
    have hfind : findOperator arithmeticKeys
        (Argument.slots {} object [a, .literal (.str op.word), b])
          = .ok (some (op, [⟨a, a.made object⟩, ⟨b, b.made object⟩])) := by
      simp only [slots_cons, findOperator, operatorIn_arithmetic ha, hkey]
      rfl
    have hkeyed : keyedOperation arithmeticKeys (.str "calc_basic")
        (Argument.slots {} object [a, .literal (.str op.word), b])
          = .ok (.binary op left right) := by
      simp only [keyedOperation, hfind, operation, hleft, hright]
      rfl
    exact hkeyed

/-! ## Reading back -/

/-- The text of an argument, at any place, is read as the tree that the argument stands for, and
arithmetic has the value of its blocks. -/
theorem written_blocks_keep_their_tree (object : Json) (place : Int) (a : Argument)
    (hids : Argument.idsOnOneLine [a] = true) :
    (∀ text, a.written object place = .ok text →
      ∃ t, a.tree? object = some t ∧ Tree.read? text = some t) ∧
    ∀ n, Arithmetic a n →
      ∃ text, a.written object place = .ok text ∧
        (Tree.read? text).bind Tree.integer? = some n := by
  constructor
  · intro text h
    cases he : a.made object with
    | error o => simp [Argument.written, he, Except.map] at h
    | ok e =>
      obtain ⟨hw, ht⟩ := forms_made hids he
      have htext : text = e.render place := by simpa [Argument.written, he, Except.map] using h.symm
      exact ⟨e.tree, ht, by rw [htext, Expr.read_render hw]⟩
  · intro n hn
    obtain ⟨e, he, hvalue⟩ := made_arithmetic object hn
    obtain ⟨hw, -⟩ := forms_made hids he
    exact ⟨e.render place, by simp [Argument.written, he, Except.map],
      by rw [Expr.read_render hw]; exact hvalue⟩

/-- A difference on the right of a difference, where an operand of a sign is asked for. -/
theorem nested_difference_keeps_its_tree :
    let inner : Argument := .block (.mk (.str "calc_basic")
      [.literal (.str "5"), .literal (.str "MINUS"), .literal (.int 2)] [] {})
    let a : Argument := .block (.mk (.str "calc_basic")
      [.literal (.int 7), .literal (.str "MINUS"), inner] [] {})
    Argument.idsOnOneLine [a] = true ∧ a.written .null 6 = .ok "(7 - (5 - 2))" ∧ Arithmetic a 4 ∧
      (∃ t, a.tree? .null = some t ∧ Tree.read? "(7 - (5 - 2))" = some t) ∧
      ∃ text, a.written .null 6 = .ok text ∧ (Tree.read? text).bind Tree.integer? = some 4 := by
  intro inner a
  have hids : Argument.idsOnOneLine [a] = true := by decide
  have hwritten : a.written .null 6 = .ok "(7 - (5 - 2))" := rfl
  have hinner : Arithmetic inner 3 :=
    .operation .minus rfl (.digits ['5'] (by simp) (by simp [Char.isDigit])) (.whole 2) [] {}
  have ha : Arithmetic a 4 := .operation .minus rfl (.whole 7) hinner [] {}
  obtain ⟨htree, hvalue⟩ := written_blocks_keep_their_tree .null 6 a hids
  exact ⟨hids, hwritten, ha, htree _ hwritten, hvalue 4 ha⟩

end BlockScript
