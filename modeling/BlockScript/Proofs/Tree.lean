-- The grammar of JavaScript expressions. Binary operators stand in six tiers
-- and group to the left; a prefix operator binds tighter than all of them,
-- and members and calls bind tightest. Lexemes are read into a tree.
import BlockScript.Proofs.Lexeme

namespace BlockScript

/-! ## Trees -/

/-- An expression as its operators and calls group it. -/
inductive Tree where
  | number (m : Magnitude)
  | string (units : List Nat)
  | name (w : Text)
  | array (items : List Tree)
  | object (fields : List (List Nat × Tree))
  | member (of : Tree) (field : Text)
  | call (callee : Tree) (arguments : List Tree)
  | not (e : Tree)
  | negate (e : Tree)
  | await (e : Tree)
  | binary (op : Operator) (left right : Tree)
deriving Inhabited

/-! ## Tiers -/

/-- The tiers of binary operators. -/
inductive Tier where
  | or
  | and
  | equality
  | relational
  | additive
  | multiplicative
deriving DecidableEq

def Operator.tier : Operator → Tier
  | .or => .or
  | .and => .and
  | .equal | .notEqual => .equality
  | .less | .greater | .lessOrEqual | .greaterOrEqual => .relational
  | .plus | .minus => .additive
  | .times | .divide | .remainder => .multiplicative

/-- Every tier, the loosest first. -/
def tiers : List Tier := [.or, .and, .equality, .relational, .additive, .multiplicative]

/-- Words that name nothing. The words for the constants and for the current object are not among
them, for an expression can be one of these. -/
def reservedWords : List String :=
  ["await", "break", "case", "catch", "class", "const", "continue", "debugger", "default",
   "delete", "do", "else", "enum", "export", "extends", "finally", "for", "function", "if",
   "implements", "import", "in", "instanceof", "interface", "let", "new", "package", "private",
   "protected", "public", "return", "static", "super", "switch", "throw", "try", "typeof", "var",
   "void", "while", "with", "yield"]

def isReserved (w : Text) : Bool := reservedWords.any fun r => Text.ofString r = w

/-! ## Reading -/

namespace Tree

/-- Lexemes that are left when at least one was read. -/
abbrev Left (ts : List Lexeme) := { rest : List Lexeme // rest.length < ts.length }

mutual

/-- Reads an expression whose operators outside of brackets are all of the given tiers. -/
def readChain (within : List Tier) (ts : List Lexeme) : Option (Tree × Left ts) :=
  match within with
  | [] => readUnary ts
  | tier :: tighter => do
    let (left, ⟨rest, h⟩) ← readChain tighter ts
    let (e, ⟨rest', h'⟩) ← readMore tier tighter left rest
    return (e, ⟨rest', by omega⟩)
termination_by (ts.length, within.length + 3)

/-- Reads on after a left operand, as long as operators of the tier follow. -/
def readMore (tier : Tier) (tighter : List Tier) (left : Tree) (ts : List Lexeme) :
    Option (Tree × { rest : List Lexeme // rest.length ≤ ts.length }) :=
  match ts with
  | .mark (.operator op) :: rest =>
    if op.tier = tier then do
      let (right, ⟨rest', h⟩) ← readChain tighter rest
      let (e, ⟨rest'', h'⟩) ← readMore tier tighter (.binary op left right) rest'
      return (e, ⟨rest'', by simp only [List.length_cons]; omega⟩)
    else some (left, ⟨.mark (.operator op) :: rest, Nat.le_refl _⟩)
  | ts => some (left, ⟨ts, Nat.le_refl _⟩)
termination_by (ts.length, 0)

/-- Reads an operand with the prefix operators in front of it. -/
def readUnary (ts : List Lexeme) : Option (Tree × Left ts) :=
  match ts with
  | .mark .not :: rest => do
    let (e, ⟨rest', h⟩) ← readUnary rest
    return (.not e, ⟨rest', by simp only [List.length_cons]; omega⟩)
  | .mark (.operator .minus) :: rest => do
    let (e, ⟨rest', h⟩) ← readUnary rest
    return (.negate e, ⟨rest', by simp only [List.length_cons]; omega⟩)
  | .word w :: rest =>
    if w = Text.ofString "await" then do
      let (e, ⟨rest', h⟩) ← readUnary rest
      return (.await e, ⟨rest', by simp only [List.length_cons]; omega⟩)
    else readCall (.word w :: rest)
  | ts => readCall ts
termination_by (ts.length, 2)

/-- Reads a plain operand and the members and calls that follow it. -/
def readCall (ts : List Lexeme) : Option (Tree × Left ts) := do
  let (e, ⟨rest, h⟩) ← readPrimary ts
  let (e, ⟨rest', h'⟩) ← readSuffixes e rest
  return (e, ⟨rest', by omega⟩)
termination_by (ts.length, 1)

def readSuffixes (e : Tree) (ts : List Lexeme) :
    Option (Tree × { rest : List Lexeme // rest.length ≤ ts.length }) :=
  match ts with
  | .mark .dot :: .word w :: rest => do
    let (e, ⟨rest', h⟩) ← readSuffixes (.member e w) rest
    return (e, ⟨rest', by simp only [List.length_cons]; omega⟩)
  | .mark .openParen :: rest => do
    let (arguments, ⟨rest', h⟩) ← readList .closeParen rest
    let (e, ⟨rest'', h'⟩) ← readSuffixes (.call e arguments) rest'
    return (e, ⟨rest'', by simp only [List.length_cons]; omega⟩)
  | ts => some (e, ⟨ts, Nat.le_refl _⟩)
termination_by (ts.length, 0)

def readPrimary (ts : List Lexeme) : Option (Tree × Left ts) :=
  match ts with
  | .number m :: rest => some (.number m, ⟨rest, Nat.lt_succ_self _⟩)
  | .string units :: rest => some (.string units, ⟨rest, Nat.lt_succ_self _⟩)
  | .word w :: rest => if isReserved w then none else some (.name w, ⟨rest, Nat.lt_succ_self _⟩)
  | .mark .openParen :: rest => do
    let (e, ⟨rest', h⟩) ← readChain tiers rest
    match rest', h with
    | .mark .closeParen :: rest'', h =>
      return (e, ⟨rest'', by simp only [List.length_cons] at *; omega⟩)
    | _, _ => none
  | .mark .openBracket :: rest => do
    let (items, ⟨rest', h⟩) ← readList .closeBracket rest
    return (.array items, ⟨rest', by simp only [List.length_cons]; omega⟩)
  | .mark .openBrace :: rest => do
    let (fields, ⟨rest', h⟩) ← readFields rest
    return (.object fields, ⟨rest', by simp only [List.length_cons]; omega⟩)
  | _ => none
termination_by (ts.length, 0)

/-- Reads expressions with commas between them, up to the closing mark. -/
def readList (close : Mark) (ts : List Lexeme) : Option (List Tree × Left ts) :=
  match ts with
  | .mark m :: rest =>
    if m = close then some ([], ⟨rest, Nat.lt_succ_self _⟩) else readItems close (.mark m :: rest)
  | ts => readItems close ts
termination_by (ts.length, tiers.length + 5)

def readItems (close : Mark) (ts : List Lexeme) : Option (List Tree × Left ts) := do
  let (e, ⟨rest, h⟩) ← readChain tiers ts
  match rest, h with
  | .mark m :: rest', h =>
    have : rest'.length < ts.length := Nat.lt_of_succ_lt h
    if m = .comma then do
      let (items, ⟨rest'', h'⟩) ← readItems close rest'
      return (e :: items, ⟨rest'', by simp only [List.length_cons] at *; omega⟩)
    else if m = close then
      return ([e], ⟨rest', by simp only [List.length_cons] at *; omega⟩)
    else none
  | _, _ => none
termination_by (ts.length, tiers.length + 4)

/-- Reads the fields of an object, each with a string as its key, up to the closing brace. -/
def readFields (ts : List Lexeme) : Option (List (List Nat × Tree) × Left ts) :=
  match ts with
  | .mark .closeBrace :: rest => some ([], ⟨rest, Nat.lt_succ_self _⟩)
  | ts => readEntries ts
termination_by (ts.length, 1)

def readEntries (ts : List Lexeme) : Option (List (List Nat × Tree) × Left ts) :=
  match ts with
  | .string k :: .mark .colon :: rest => do
    let (e, ⟨rest', h⟩) ← readChain tiers rest
    match rest', h with
    | .mark .comma :: rest'', h =>
      have : rest''.length < rest.length := Nat.lt_of_succ_lt h
      let (fields, ⟨left, h'⟩) ← readEntries rest''
      return ((k, e) :: fields, ⟨left, by simp only [List.length_cons] at *; omega⟩)
    | .mark .closeBrace :: rest'', h =>
      return ([(k, e)], ⟨rest'', by simp only [List.length_cons] at *; omega⟩)
    | _, _ => none
  | _ => none
termination_by (ts.length, 0)

end

/-- The tree of a text that is one expression and nothing else. -/
def read? (t : Text) : Option Tree := do
  match ← readChain tiers (← lexemes? t) with
  | (e, ⟨[], _⟩) => return e
  | _ => none

/-! ## What a reading yields -/

/-- The reading gives this and leaves these lexemes. -/
def Yields {α : Type} {p : List Lexeme → Prop} (r : Option (α × { rest : List Lexeme // p rest }))
    (a : α) (rest : List Lexeme) : Prop :=
  ∃ h : p rest, r = some (a, ⟨rest, h⟩)

theorem yields_nil {ts : List Lexeme} {e : Tree} {rest : List Lexeme}
    (h : Yields (readUnary ts) e rest) :
    Yields (readChain [] ts) e rest := by
  rw [readChain]
  exact h

theorem yields_chain {tier : Tier} {tighter : List Tier} {ts rest rest' : List Lexeme}
    {left e : Tree}
    (h : Yields (readChain tighter ts) left rest)
    (hmore : Yields (readMore tier tighter left rest) e rest') :
    Yields (readChain (tier :: tighter) ts) e rest' := by
  obtain ⟨h1, hr⟩ := h
  obtain ⟨h2, hm⟩ := hmore
  refine ⟨by omega, ?_⟩
  rw [readChain, hr]
  simp [hm]

theorem yields_operator {op : Operator} {tighter : List Tier} {left right e : Tree}
    {ts rest rest' : List Lexeme} (h : Yields (readChain tighter ts) right rest)
    (hmore : Yields (readMore op.tier tighter (.binary op left right) rest) e rest') :
    Yields (readMore op.tier tighter left (.mark (.operator op) :: ts)) e rest' := by
  obtain ⟨h1, hr⟩ := h
  obtain ⟨h2, hm⟩ := hmore
  refine ⟨by simp only [List.length_cons]; omega, ?_⟩
  rw [readMore, if_pos rfl, hr]
  simp [hm]

/-- No operator of the tier comes next. -/
def Stops (tier : Tier) (ts : List Lexeme) : Prop :=
  ∀ op rest, ts = .mark (.operator op) :: rest → op.tier ≠ tier

theorem yields_stop {tier : Tier} {tighter : List Tier} {left : Tree} {ts : List Lexeme}
    (h : Stops tier ts) : Yields (readMore tier tighter left ts) left ts := by
  refine ⟨Nat.le_refl _, ?_⟩
  unfold readMore
  split
  · rename_i op rest
    rw [if_neg (h op rest rfl)]
  · rfl

theorem yields_not {ts : List Lexeme} {e : Tree} {rest : List Lexeme}
    (h : Yields (readUnary ts) e rest) : Yields (readUnary (.mark .not :: ts)) (.not e) rest := by
  obtain ⟨h1, hr⟩ := h
  refine ⟨by simp only [List.length_cons]; omega, ?_⟩
  rw [readUnary, hr]
  rfl

theorem yields_negate {ts : List Lexeme} {e : Tree} {rest : List Lexeme}
    (h : Yields (readUnary ts) e rest) :
    Yields (readUnary (.mark (.operator .minus) :: ts)) (.negate e) rest := by
  obtain ⟨h1, hr⟩ := h
  refine ⟨by simp only [List.length_cons]; omega, ?_⟩
  rw [readUnary, hr]
  rfl

theorem yields_await {ts : List Lexeme} {e : Tree} {rest : List Lexeme}
    (h : Yields (readUnary ts) e rest) :
    Yields (readUnary (.word "await" :: ts)) (.await e) rest := by
  obtain ⟨h1, hr⟩ := h
  refine ⟨by simp only [List.length_cons]; omega, ?_⟩
  rw [readUnary, if_pos rfl, hr]
  rfl

/-- A lexeme that is no prefix operator. -/
def StartsOperand : Lexeme → Prop
  | .word w => isReserved w = false
  | .mark m => m ≠ .not ∧ m ≠ .operator .minus
  | _ => True

theorem yields_operand {t : Lexeme} {ts : List Lexeme} {e : Tree} {rest : List Lexeme}
    (ht : StartsOperand t) (h : Yields (readCall (t :: ts)) e rest) :
    Yields (readUnary (t :: ts)) e rest := by
  obtain ⟨h1, hr⟩ := h
  refine ⟨h1, ?_⟩
  rw [← hr]
  cases t with
  | number m => rw [readUnary.eq_def]
  | string units => rw [readUnary.eq_def]
  | word w =>
    have hw : w ≠ Text.ofString "await" := by
      rintro rfl
      have ht : isReserved (Text.ofString "await") = false := ht
      exact absurd ht (by decide)
    rw [readUnary, if_neg hw]
  | mark m =>
    rw [readUnary.eq_def]
    cases m with
    | not => exact absurd rfl ht.1
    | operator op =>
      cases op with
      | minus => exact absurd rfl ht.2
      | _ => rfl
    | _ => rfl

theorem yields_call {ts rest rest' : List Lexeme} {e e' : Tree} (h : Yields (readPrimary ts) e rest)
    (hs : Yields (readSuffixes e rest) e' rest') : Yields (readCall ts) e' rest' := by
  obtain ⟨h1, hr⟩ := h
  obtain ⟨h2, hm⟩ := hs
  refine ⟨by omega, ?_⟩
  rw [readCall, hr]
  simp [hm]

theorem yields_member {e e' : Tree} {w : Text} {ts rest : List Lexeme}
    (h : Yields (readSuffixes (.member e w) ts) e' rest) :
    Yields (readSuffixes e (.mark .dot :: .word w :: ts)) e' rest := by
  obtain ⟨h1, hr⟩ := h
  refine ⟨by simp only [List.length_cons]; omega, ?_⟩
  rw [readSuffixes, hr]
  rfl

theorem yields_arguments {e e' : Tree} {arguments : List Tree} {ts rest rest' : List Lexeme}
    (h : Yields (readList .closeParen ts) arguments rest)
    (hs : Yields (readSuffixes (.call e arguments) rest) e' rest') :
    Yields (readSuffixes e (.mark .openParen :: ts)) e' rest' := by
  obtain ⟨h1, hr⟩ := h
  obtain ⟨h2, hm⟩ := hs
  refine ⟨by simp only [List.length_cons]; omega, ?_⟩
  rw [readSuffixes, hr]
  simp [hm]

/-- Neither a member nor a call goes on here. -/
def EndsOperand (ts : List Lexeme) : Prop :=
  ∀ m rest, ts = .mark m :: rest → m ≠ .dot ∧ m ≠ .openParen

theorem yields_end {e : Tree} {ts : List Lexeme} (h : EndsOperand ts) :
    Yields (readSuffixes e ts) e ts := by
  refine ⟨Nat.le_refl _, ?_⟩
  unfold readSuffixes
  split
  · exact absurd rfl (h _ _ rfl).1
  · exact absurd rfl (h _ _ rfl).2
  · rfl

/-! ### Plain operands -/

theorem yields_number (m : Magnitude) (rest : List Lexeme) :
    Yields (readPrimary (.number m :: rest)) (.number m) rest :=
  ⟨Nat.lt_succ_self _, by rw [readPrimary]⟩

theorem yields_string (units : List Nat) (rest : List Lexeme) :
    Yields (readPrimary (.string units :: rest)) (.string units) rest :=
  ⟨Nat.lt_succ_self _, by rw [readPrimary]⟩

theorem yields_name {w : Text} (h : isReserved w = false) (rest : List Lexeme) :
    Yields (readPrimary (.word w :: rest)) (.name w) rest :=
  ⟨Nat.lt_succ_self _, by rw [readPrimary, h]; rfl⟩

theorem yields_paren {ts rest : List Lexeme} {e : Tree}
    (h : Yields (readChain tiers ts) e (.mark .closeParen :: rest)) :
    Yields (readPrimary (.mark .openParen :: ts)) e rest := by
  obtain ⟨h1, hr⟩ := h
  have hlen := Nat.lt_of_succ_lt h1
  refine ⟨by simp only [List.length_cons]; omega, ?_⟩
  rw [readPrimary, hr]
  rfl

theorem yields_array {ts rest : List Lexeme} {items : List Tree}
    (h : Yields (readList .closeBracket ts) items rest) :
    Yields (readPrimary (.mark .openBracket :: ts)) (.array items) rest := by
  obtain ⟨h1, hr⟩ := h
  refine ⟨by simp only [List.length_cons]; omega, ?_⟩
  rw [readPrimary, hr]
  rfl

theorem yields_object {ts rest : List Lexeme} {fields : List (List Nat × Tree)}
    (h : Yields (readFields ts) fields rest) :
    Yields (readPrimary (.mark .openBrace :: ts)) (.object fields) rest := by
  obtain ⟨h1, hr⟩ := h
  refine ⟨by simp only [List.length_cons]; omega, ?_⟩
  rw [readPrimary, hr]
  rfl

/-! ### Lists and fields -/

theorem yields_list_nil (close : Mark) (rest : List Lexeme) :
    Yields (readList close (.mark close :: rest)) [] rest :=
  ⟨Nat.lt_succ_self _, by rw [readList, if_pos rfl]⟩

theorem yields_list {close : Mark} {ts rest : List Lexeme} {items : List Tree}
    (hclose : ∀ rest, ts ≠ .mark close :: rest) (h : Yields (readItems close ts) items rest) :
    Yields (readList close ts) items rest := by
  obtain ⟨h1, hr⟩ := h
  refine ⟨h1, ?_⟩
  rw [← hr]
  unfold readList
  split
  · rename_i m rest
    rw [if_neg fun hm => hclose rest (by rw [hm])]
  · rfl

theorem yields_last {close : Mark} {ts rest : List Lexeme} {e : Tree} (hclose : close ≠ .comma)
    (h : Yields (readChain tiers ts) e (.mark close :: rest)) :
    Yields (readItems close ts) [e] rest := by
  obtain ⟨h1, hr⟩ := h
  refine ⟨Nat.lt_of_succ_lt h1, ?_⟩
  rw [readItems, hr]
  simp [hclose]

theorem yields_item {close : Mark} {ts rest rest' : List Lexeme} {e : Tree} {items : List Tree}
    (h : Yields (readChain tiers ts) e (.mark .comma :: rest))
    (hitems : Yields (readItems close rest) items rest') :
    Yields (readItems close ts) (e :: items) rest' := by
  obtain ⟨h1, hr⟩ := h
  obtain ⟨h2, hm⟩ := hitems
  have hlen := Nat.lt_of_succ_lt h1
  refine ⟨by omega, ?_⟩
  rw [readItems, hr]
  simp [hm]

theorem yields_fields_nil (rest : List Lexeme) :
    Yields (readFields (.mark .closeBrace :: rest)) [] rest :=
  ⟨Nat.lt_succ_self _, by rw [readFields]⟩

theorem yields_fields {ts rest : List Lexeme} {fields : List (List Nat × Tree)}
    (h : Yields (readEntries ts) fields rest) : Yields (readFields ts) fields rest := by
  obtain ⟨h1, hr⟩ := h
  refine ⟨h1, ?_⟩
  unfold readFields
  split
  · rw [readEntries.eq_def] at hr
    cases hr
  · exact hr

theorem yields_last_entry {k : List Nat} {ts rest : List Lexeme} {e : Tree}
    (h : Yields (readChain tiers ts) e (.mark .closeBrace :: rest)) :
    Yields (readEntries (.string k :: .mark .colon :: ts)) [(k, e)] rest := by
  obtain ⟨h1, hr⟩ := h
  have hlen := Nat.lt_of_succ_lt h1
  refine ⟨by simp only [List.length_cons]; omega, ?_⟩
  rw [readEntries, hr]
  rfl

theorem yields_entry {k : List Nat} {ts rest rest' : List Lexeme} {e : Tree}
    {fields : List (List Nat × Tree)} (h : Yields (readChain tiers ts) e (.mark .comma :: rest))
    (hfields : Yields (readEntries rest) fields rest') :
    Yields (readEntries (.string k :: .mark .colon :: ts)) ((k, e) :: fields) rest' := by
  obtain ⟨h1, hr⟩ := h
  obtain ⟨h2, hm⟩ := hfields
  have hlen := Nat.lt_of_succ_lt h1
  refine ⟨by simp only [List.length_cons]; omega, ?_⟩
  rw [readEntries, hr]
  simp [hm]

theorem read_of_yields {t : Text} {ts : List Lexeme} {e : Tree} (ht : lexemes? t = some ts)
    (h : Yields (readChain tiers ts) e []) : read? t = some e := by
  obtain ⟨h1, hr⟩ := h
  simp [read?, ht, hr]

end Tree

end BlockScript
