-- The words of generated lines. Outside of its texts, a line of code is made of words,
-- numbers and marks, and the words are those of the language, of the runtime, of the
-- names that the blocks stand for and of the loops around it.
import BlockScript.Proofs.Statements
import BlockScript.Proofs.Vocabulary

namespace BlockScript

/-! ## Words among lexemes -/

def Lexeme.word? : Lexeme → Option Text
  | .word w => some w
  | .number _ | .string _ | .mark _ => none

def wordsOf (ts : List Lexeme) : List Text := ts.filterMap Lexeme.word?

@[simp] theorem wordsOf_nil : wordsOf [] = [] := rfl

@[simp] theorem wordsOf_word (w : Text) (ts : List Lexeme) :
    wordsOf (.word w :: ts) = w :: wordsOf ts := rfl

@[simp] theorem wordsOf_number (m : Magnitude) (ts : List Lexeme) :
    wordsOf (.number m :: ts) = wordsOf ts := rfl

@[simp] theorem wordsOf_string (units : List Nat) (ts : List Lexeme) :
    wordsOf (.string units :: ts) = wordsOf ts := rfl

@[simp] theorem wordsOf_mark (m : Mark) (ts : List Lexeme) :
    wordsOf (.mark m :: ts) = wordsOf ts := rfl

@[simp] theorem wordsOf_append (as bs : List Lexeme) :
    wordsOf (as ++ bs) = wordsOf as ++ wordsOf bs := List.filterMap_append ..

theorem mem_wordsOf_separated {w : Text} {parts : List (List Lexeme)} :
    w ∈ wordsOf (separated parts) ↔ ∃ ts ∈ parts, w ∈ wordsOf ts := by
  induction parts with
  | nil => simp [separated]
  | cons ts rest ih =>
    cases rest with
    | nil => simp [separated]
    | cons us more => simpa [separated] using or_congr_right ih

@[simp] theorem wordsOf_sign (negative : Bool) : wordsOf (signLexemes negative) = [] := by
  cases negative <;> rfl

/-- The words of a line of code, outside of its texts. A comment has none, but it must not end
before the line does. -/
def lineWords? (line : Text) : Option (List Text) :=
  (codeLexemes? .all (line.dropWhile (· = .char ' '))).map wordsOf

/-! ## Names -/

mutual

/-- The names that stand in an expression, at any depth. -/
@[simp]
def Expr.names : Expr → List Text
  | .name t => [t]
  | .member e _ | .not e | .await e => Expr.names e
  | .call callee arguments => Expr.names callee ++ Expr.namesOf arguments
  | .binary _ left right => Expr.names left ++ Expr.names right
  | .numeral _ | .plain _ | .data _ | .zero | .text _ | .verbatim _ => []

@[simp]
def Expr.namesOf : List Expr → List Text
  | [] => []
  | e :: rest => Expr.names e ++ Expr.namesOf rest

end

mutual

@[simp]
def Stmt.names : Stmt → List Text
  | .comment _ | .verbatim _ | .jump _ => []
  | .run e => e.names
  | .set target e | .raise target e => target.names ++ e.names
  | .choose condition body other => condition.names ++ Stmt.namesAll body ++ Stmt.namesElse other
  | .count level bound body =>
    Name.counter level :: Name.limit level :: bound.names ++ Stmt.namesAll body
  | .loop condition body => condition.names ++ Stmt.namesAll body

@[simp]
def Stmt.namesAll : List Stmt → List Text
  | [] => []
  | s :: rest => Stmt.names s ++ Stmt.namesAll rest

@[simp]
def Stmt.namesElse : Option (List Stmt) → List Text
  | none => []
  | some body => Stmt.namesAll body

end

/-! ## Words of expressions -/

/-- The words of the language in statements and in data. The last two are what is left of the
variables of a loop whose level is below zero. -/
def languageWords : List String :=
  ["for", "let", "if", "while", "else", "break", "continue", "return", "null", "true", "false",
   "NaN", "Infinity", "_i", "_n"]

/-- The words of the runtime and of the language pass `N`. -/
structure Speech (N : Text → Prop) : Prop where
  word : ∀ w ∈ runtimeWords, N (Text.ofString w)
  language : ∀ w ∈ languageWords, N (Text.ofString w)

section Data

variable {N : Text → Prop}

theorem words_double (hN : Speech N) (d : Double) : ∀ w ∈ wordsOf d.lexemes, N w := by
  cases d with
  | nan => simpa [Double.lexemes] using hN.language "NaN" (by decide)
  | infinity negative => simpa [Double.lexemes] using hN.language "Infinity" (by decide)
  | finite negative m e => simp [Double.lexemes]

mutual

theorem words_json (hN : Speech N) : (v : Json) → ∀ w ∈ wordsOf v.lexemes, N w
  | .null => by simpa [Json.lexemes] using hN.language "null" (by decide)
  | .bool true => by simpa [Json.lexemes] using hN.language "true" (by decide)
  | .bool false => by simpa [Json.lexemes] using hN.language "false" (by decide)
  | .int n => by simp [Json.lexemes]
  | .double d => words_double hN d
  | .str t => by simp [Json.lexemes]
  | .arr items => by simpa [Json.lexemes, mem_wordsOf_separated] using words_items hN items
  | .obj fields => by simpa [Json.lexemes, mem_wordsOf_separated] using words_fields hN fields

theorem words_items (hN : Speech N) : (items : List Json) →
    ∀ w, ∀ ts ∈ Json.lexemeItems items, w ∈ wordsOf ts → N w
  | [] => by simp [Json.lexemeItems]
  | v :: rest => fun w =>
    List.forall_mem_cons.mpr ⟨words_json hN v w, words_items hN rest w⟩

theorem words_fields (hN : Speech N) : (fields : List (Text × Json)) →
    ∀ w, ∀ ts ∈ Json.lexemeFields fields, w ∈ wordsOf ts → N w
  | [] => by simp [Json.lexemeFields]
  | (k, v) :: rest => fun w =>
    List.forall_mem_cons.mpr ⟨words_json hN v w, words_fields hN rest w⟩

end

end Data

namespace Expr

/-- The words that an expression is written with. -/
def words (e : Expr) : List Text := wordsOf e.bodyLexemes

@[simp] theorem wordsOf_fit (e : Expr) (ts : List Lexeme) (place : Int) :
    wordsOf (e.fitLexemes ts place) = wordsOf ts := by
  rcases fitLexemes_cases e ts place with heq | ⟨heq, -⟩ <;> rw [heq]
  simp

@[simp] theorem words_name (t : Text) : (name t).words = [t] := rfl

@[simp] theorem words_member (e : Expr) (field : Text) :
    (member e field).words = e.words ++ [field] := by
  simp [words, bodyLexemes]

@[simp] theorem words_not (e : Expr) : (not e).words = e.words := by
  simp [words, bodyLexemes]

@[simp] theorem words_await (e : Expr) :
    (await e).words = Text.ofString "await" :: e.words := by
  simp [words, bodyLexemes]

@[simp] theorem words_binary (op : Operator) (left right : Expr) :
    (binary op left right).words = left.words ++ right.words := by
  simp [words, bodyLexemes]

theorem mem_words_bodies {w : Text} {es : List Expr} :
    (∃ ts ∈ bodiesLexemes es, w ∈ wordsOf ts) ↔ ∃ e ∈ es, w ∈ e.words := by
  induction es with
  | nil => simp [bodiesLexemes]
  | cons e rest ih => simp [bodiesLexemes, ih, words]

theorem mem_words_call {w : Text} {callee : Expr} {arguments : List Expr} :
    w ∈ (call callee arguments).words ↔ w ∈ callee.words ∨ ∃ e ∈ arguments, w ∈ e.words := by
  simp [words, bodyLexemes, mem_wordsOf_separated, mem_words_bodies]

/-- Every word of the expression passes `N`. -/
def Spoken (N : Text → Prop) (e : Expr) : Prop := ∀ w ∈ e.words, N w

section Spoken

variable {N : Text → Prop}

@[simp] theorem spoken_name (t : Text) : (name t).Spoken N ↔ N t := by simp [Spoken]

@[simp] theorem spoken_member (e : Expr) (field : Text) :
    (member e field).Spoken N ↔ e.Spoken N ∧ N field := by
  simp [Spoken, or_imp, forall_and]

@[simp] theorem spoken_call (callee : Expr) (arguments : List Expr) :
    (call callee arguments).Spoken N ↔ callee.Spoken N ∧ ∀ e ∈ arguments, e.Spoken N := by
  simp only [Spoken, mem_words_call, or_imp, forall_and]
  grind

@[simp] theorem spoken_not (e : Expr) : (not e).Spoken N ↔ e.Spoken N := by simp [Spoken]

@[simp] theorem spoken_await (e : Expr) :
    (await e).Spoken N ↔ N (Text.ofString "await") ∧ e.Spoken N := by
  simp [Spoken]

@[simp] theorem spoken_binary (op : Operator) (left right : Expr) :
    (binary op left right).Spoken N ↔ left.Spoken N ∧ right.Spoken N := by
  simp [Spoken, or_imp, forall_and]

theorem spoken_data (hN : Speech N) (v : Json) : (data v).Spoken N := words_json hN v

theorem spoken_ofLiteral (hN : Speech N) (v : Json) : (ofLiteral v).Spoken N := by
  unfold ofLiteral
  split
  · split <;> simp [Spoken, words, bodyLexemes]
  · exact spoken_data hN _

theorem spoken_quoted (v : Json) : (quoted v).Spoken N := by
  unfold quoted
  split <;> simp [Spoken, words, bodyLexemes]

end Spoken

mutual

/-- A name of an expression is one of its words. -/
theorem names_subset_words : (e : Expr) → e.names ⊆ e.words
  | .name t => List.Subset.refl _
  | .member e field => by
    simpa using List.Subset.trans (names_subset_words e) (List.subset_append_left _ _)
  | .not e => by simpa using names_subset_words e
  | .await e => by
    simpa using List.Subset.trans (names_subset_words e) (List.subset_cons_self _ _)
  | .call callee arguments => by
    intro w hw
    refine mem_words_call.mpr ((List.mem_append.mp hw).imp (names_subset_words callee ·) ?_)
    exact exists_of_mem_namesOf arguments
  | .binary op left right => by
    intro w hw
    rw [words_binary]
    exact List.mem_append.mpr ((List.mem_append.mp hw).imp (names_subset_words left ·)
      (names_subset_words right ·))
  | .numeral _ | .plain _ | .data _ | .zero | .text _ | .verbatim _ => List.nil_subset _

theorem exists_of_mem_namesOf {w : Text} : (es : List Expr) → w ∈ namesOf es →
    ∃ e ∈ es, w ∈ e.words
  | [] => fun hw => absurd hw List.not_mem_nil
  | e :: rest => by
    intro hw
    rcases List.mem_append.mp hw with hw | hw
    · exact ⟨e, List.mem_cons_self, names_subset_words e hw⟩
    · obtain ⟨e', he', hw⟩ := exists_of_mem_namesOf rest hw
      exact ⟨e', List.mem_cons_of_mem _ he', hw⟩

end

end Expr

/-! ## Words of values -/

section Values

variable {N : Text → Prop}

theorem closed_spoken (hN : Speech N) : Expr.Closed (Expr.Spoken N) where
  literal := Expr.spoken_ofLiteral hN
  quoted := Expr.spoken_quoted
  text t := by simp [Expr.Spoken, Expr.words, Expr.bodyLexemes]
  zero := by simp [Expr.Spoken, Expr.words, Expr.bodyLexemes]
  one := by simp [Expr.Spoken, Expr.words, Expr.bodyLexemes, Expr.one]
  word hw := by simpa using hN.word _ (List.mem_append_left _ hw)
  member he _ hw := by simp [he, hN.word _ hw]
  call he _ harguments := by simpa [he] using harguments
  not he := by simpa using he
  binary hleft hright := by simp [hleft, hright]

/-- The names of the nodes pass `N`, and the word of a wait does if one of them waits. -/
structure NodesSpoken (N : Text → Prop) (nodes : List Node) : Prop where
  paramName : ∀ n ∈ nodes, ∀ id ∈ n.param?, ∀ name,
    Name.ofParam (.str id) n.labels.drawn = .ok name → N name
  localName : ∀ n ∈ nodes, ∀ id ∈ n.localId?, ∀ name, Name.ofLocal id = .ok name → N name
  functionName : ∀ n ∈ nodes, ∀ id ∈ n.callee?, ∀ name,
    Name.ofFunction (.str id) n.labels.drawn = .ok name → N name
  await : ∀ n ∈ nodes, n.suspends = true → N (Text.ofString "await")

/-- The names pass where all names do. -/
theorem Vocabulary.nodesSpoken (hN : Vocabulary N) {nodes : List Node}
    (hwait : ∀ n ∈ nodes, n.suspends = true → N (Text.ofString "await")) : NodesSpoken N nodes where
  paramName _ _ id _ name hname := hN.paramName (.str id) _ name hname
  localName _ _ id _ name hname := hN.localName id name hname
  functionName _ _ id _ name hname := hN.functionName (.str id) _ name hname
  await := hwait

/-- Only the call of a function waits. -/
theorem named_spoken (hN : Speech N) {nodes : List Node} (h : NodesSpoken N nodes) :
    NamedPass (Expr.Spoken N) nodes where
  paramName n hn id hid name hname := by simpa using h.paramName n hn id hid name hname
  localName n hn id hid name hname := by simpa using h.localName n hn id hid name hname
  called n hn id hid name hname arguments harguments := by
    have hcallee : n.callee? = some id := hid
    have hawait := h.await n hn (by simp [Node.suspends, hcallee])
    have hentry := (closed_spoken hN).entry
    have hself := (closed_spoken hN).self
    have hfunction := h.functionName n hn id hid name hname
    simpa [Expr.method, hawait, hentry, hself, hfunction, hN.word "func" (by decide)]
      using harguments

end Values

/-! ## Words of statements -/

namespace Stmt

mutual

/-- Every word of the statement passes `N`, apart from statements that only yield. -/
@[simp]
def Spoken (N : Text → Prop) : Stmt → Prop
  | .comment _ | .jump _ => True
  | .verbatim _ => False
  | .run e => Stmt.run e = yieldNow ∨ e.Spoken N
  | .set target e | .raise target e => target.Spoken N ∧ e.Spoken N
  | .choose condition body other => condition.Spoken N ∧ AllSpoken N body ∧ ElseSpoken N other
  | .count level bound body =>
    N (Name.counter level) ∧ N (Name.limit level) ∧ bound.Spoken N ∧ AllSpoken N body
  | .loop condition body => condition.Spoken N ∧ AllSpoken N body

@[simp]
def AllSpoken (N : Text → Prop) : List Stmt → Prop
  | [] => True
  | s :: rest => Spoken N s ∧ AllSpoken N rest

@[simp]
def ElseSpoken (N : Text → Prop) : Option (List Stmt) → Prop
  | none => True
  | some body => AllSpoken N body

end

theorem allSpoken_iff {N : Text → Prop} {body : List Stmt} :
    AllSpoken N body ↔ ∀ st ∈ body, st.Spoken N := by
  induction body with
  | nil => simp
  | cons s rest ih => simp [ih]

@[simp] theorem spoken_yieldNow (N : Text → Prop) : yieldNow.Spoken N := .inl rfl

variable {N : Text → Prop}

theorem names_of_spoken_expr {e : Expr} (h : e.Spoken N) : ∀ t ∈ e.names, N t :=
  fun t ht => h t (e.names_subset_words ht)

mutual

/-- The names of a statement are among its words, and a yield names the runtime. -/
theorem names_of_spoken (hentry : N (Text.ofString "Entry")) : (s : Stmt) → s.Spoken N →
    ∀ t ∈ s.names, N t
  | .comment _, _ | .jump _, _ => by simp
  | .run e, h => by
    rcases h with heq | h
    · cases heq
      simpa [Expr.method, Expr.entry] using hentry
    · exact names_of_spoken_expr h
  | .set target e, h | .raise target e, h =>
    List.forall_mem_append.mpr ⟨names_of_spoken_expr h.1, names_of_spoken_expr h.2⟩
  | .choose condition body other, h => by
    simp only [names, List.forall_mem_append]
    exact ⟨⟨names_of_spoken_expr h.1, names_of_spokenAll hentry body h.2.1⟩,
      names_of_spokenElse hentry other h.2.2⟩
  | .count level bound body, ⟨hcounter, hlimit, hbound, hbody⟩ => by
    simp only [names, List.forall_mem_append, List.forall_mem_cons]
    exact ⟨⟨hcounter, hlimit, names_of_spoken_expr hbound⟩, names_of_spokenAll hentry body hbody⟩
  | .loop condition body, h =>
    List.forall_mem_append.mpr ⟨names_of_spoken_expr h.1, names_of_spokenAll hentry body h.2⟩

theorem names_of_spokenAll (hentry : N (Text.ofString "Entry")) : (body : List Stmt) →
    AllSpoken N body → ∀ t ∈ namesAll body, N t
  | [], _ => by simp
  | s :: rest, h => List.forall_mem_append.mpr
      ⟨names_of_spoken hentry s h.1, names_of_spokenAll hentry rest h.2⟩

theorem names_of_spokenElse (hentry : N (Text.ofString "Entry")) :
    (other : Option (List Stmt)) → ElseSpoken N other → ∀ t ∈ namesElse other, N t
  | none, _ => by simp
  | some body, h => names_of_spokenAll hentry body h

end

end Stmt

/-! ## Words of bodies -/

section Bodies

variable {N : Text → Prop} {lowest : Int}
  (hlevels : ∀ level, lowest ≤ level → N (Name.counter level) ∧ N (Name.limit level))

include hlevels in
/-- The forms of statements, where the variables of loops from the lowest level on pass. -/
theorem Stmt.closed_spoken : Stmt.Closed lowest (Expr.Spoken N) (Stmt.Spoken N) where
  run he _ := .inr he
  set htarget _ _ he := ⟨htarget, he⟩
  raise htarget _ _ he := ⟨htarget, he⟩
  back := trivial
  yield := .inl rfl
  leave := trivial
  next := trivial
  choose {condition body other} hcondition hbody hother := by
    refine ⟨hcondition, allSpoken_iff.mpr hbody, ?_⟩
    cases other with
    | none => trivial
    | some body => exact allSpoken_iff.mpr (hother body rfl)
  count hlevel hbound hbody :=
    ⟨(hlevels _ hlevel).1, (hlevels _ hlevel).2, hbound, allSpoken_iff.mpr hbody⟩
  loop hcondition hbody := ⟨hcondition, allSpoken_iff.mpr hbody⟩

variable (hN : Speech N)

include hN

theorem pass_spoken {nodes : List Node} (h : NodesSpoken N nodes) :
    NodesPass (Expr.Spoken N) (Stmt.Spoken N) nodes where
  toNamedPass := named_spoken hN h
  waits n hn hsuspends e he := (Expr.spoken_await e).mpr ⟨h.await n hn hsuspends, he⟩
  unsupported _ _ := trivial
  skipped _ _ _ _ := trivial

include hlevels in
theorem forms_spoken : FormsPass {} lowest (Expr.Spoken N) (Stmt.Spoken N) :=
  .known (closed_spoken hN) (Stmt.closed_spoken hlevels)

/-- The words of the statements of a body: they pass if those of the loops from its level on do, and
those of its blocks. -/
theorem spoken_actionsAll {body : List Node} (h : NodesSpoken N (Node.walkAll body)) {s : Scope}
    (hlevels : ∀ level, s.level ≤ level → N (Name.counter level) ∧ N (Name.limit level)) :
    GivesOnly (Stmt.AllSpoken N) (Node.actionsAll {} body s) := by
  intro made hmade
  exact Stmt.allSpoken_iff.mpr (closed_actionsAll (forms_spoken hlevels hN) body
    (pass_spoken hN h) s (Int.le_refl _) made hmade)

end Bodies

/-! ## Words of lines -/

/-- The line that lets the runtime go on. -/
def yieldText : Text := "await Entry.yield();"

def yieldWords : List Text := ["await", "Entry", "yield"]

/-- The line has words, which all pass `N` unless the line only yields. -/
def Line.Spoken (N : Text → Prop) (width : Nat) (l : Line) : Prop :=
  ∃ words, lineWords? (l.shown width) = some words ∧
    (l.text = yieldText ∧ words = yieldWords ∨ ∀ w ∈ words, N w)

section Lines

variable {N : Text → Prop} {width : Nat}

theorem spoken_comment {t : Text} (h : t.Unbroken .all) (depth : Int) :
    Line.Spoken N width ⟨depth, "// " ++ t⟩ := by
  have hcode : (Line.shown width ⟨depth, "// " ++ t⟩).dropWhile (· = .char ' ') = "// " ++ t :=
    dropWhile_spaces (c := '/') (by decide) _ _
  refine ⟨[], ?_, .inr (by simp)⟩
  unfold lineWords?
  rw [hcode, codeLexemes_comment h]
  rfl

/-- A line of code that starts with no space and no slash. -/
theorem lineWords_code {c : Char} (hc : c ≠ ' ' ∧ c ≠ '/') {rest : Text} {ts : List Lexeme}
    (h : Spells (.char c :: rest) ts []) (depth : Int) :
    lineWords? (Line.shown width ⟨depth, .char c :: rest⟩) = some (wordsOf ts) := by
  have hread : lexemes? (.char c :: rest) = some ts := by
    simpa [Spells, lexemes_nil] using h
  have hslash : Text.startsWith (.char c :: rest) "//" = false := by
    simp [Text.startsWith, Text.after?, Text.ofString, Ne.symm hc.2]
  unfold lineWords? Line.shown
  simp only [dropWhile_spaces hc.1, codeLexemes_code hslash, hread]
  rfl

theorem spoken_code {t : Text} {ts : List Lexeme} (hstart : Text.opens isNameStart t = true)
    (h : Spells t ts [])
    (hwords : t = yieldText ∧ wordsOf ts = yieldWords ∨ ∀ w ∈ wordsOf ts, N w) (depth : Int) :
    Line.Spoken N width ⟨depth, t⟩ := by
  rcases t with _ | ⟨c | n, rest⟩
  · cases hstart
  · have hc : isNameStart c = true := hstart
    exact ⟨_, lineWords_code ⟨ne_of_class hc (by decide), ne_of_class hc (by decide)⟩ h depth,
      hwords⟩
  · cases hstart

theorem spoken_head {w : String} (hw : w ∈ ["if", "while", "for"]) (hword : N (Text.ofString w))
    {e : Expr} (h : e.WellFormed) (hwords : e.Spoken N) (depth : Int) :
    Line.Spoken N width ⟨depth, Text.ofString w ++ " (" ++ e.render 0 ++ ") \x7b"⟩ := by
  have hstart :
      Text.opens isNameStart (Text.ofString w ++ " (" ++ e.render 0 ++ ") \x7b") = true := by
    simp only [List.mem_cons, List.not_mem_nil, or_false] at hw
    rcases hw with rfl | rfl | rfl <;> rfl
  have hwords : ∀ w ∈ wordsOf e.bodyLexemes, N w := hwords
  refine spoken_code hstart (spells_question hw fun _ hr => e.spells_render h 0 hr) (.inr ?_) depth
  simpa [hword] using hwords

theorem spoken_assignment {s : String} (hs : s ∈ ["=", "+=", "===", "=>"]) {target e : Expr}
    (ht : target.WellFormed) (hcallee : target.isCallee = true) (he : e.WellFormed)
    (htarget : target.Spoken N) (hvalue : e.Spoken N) (depth : Int) :
    Line.Spoken N width
      ⟨depth, target.render 0 ++ (" " ++ s ++ " ") ++ e.render 0 ++ ";"⟩ := by
  have hrun : target.isRunnable = true := by cases target <;> first | rfl | cases hcallee
  refine spoken_code ?_ (spells_assignment hs ht he) (.inr ?_) depth
  · simp only [List.append_assoc]
    exact target.opens_runnable ht hrun _
  · simpa [or_imp, forall_and] using ⟨htarget, hvalue⟩

theorem spoken_run {e : Expr} (h : e.WellFormed) (hrun : e.isRunnable = true)
    (hwords : Stmt.run e = yieldNow ∨ e.Spoken N) (depth : Int) :
    Line.Spoken N width ⟨depth, e.render 0 ++ ";"⟩ := by
  refine spoken_code (e.opens_runnable h hrun _)
    (spells_append (e.spells_render h 0 ⟨rfl, rfl⟩) (spells_semicolon [])) ?_ depth
  rcases hwords with heq | hwords
  · cases heq
    exact .inl ⟨rfl, rfl⟩
  · have hwords : ∀ w ∈ wordsOf e.bodyLexemes, N w := hwords
    exact .inr (by simpa using hwords)

/-- Where the word of a wait passes, all words of the line do. -/
theorem Line.Spoken.pass {l : Line} (h : l.Spoken N width) (hN : Speech N)
    (hawait : N (Text.ofString "await")) :
    ∃ words, lineWords? (l.shown width) = some words ∧ ∀ w ∈ words, N w := by
  obtain ⟨words, hread, ⟨-, rfl⟩ | hpass⟩ := h
  · refine ⟨yieldWords, hread, ?_⟩
    simpa [yieldWords, hawait] using ⟨hN.word "Entry" (by decide), hN.word "yield" (by decide)⟩
  · exact ⟨words, hread, hpass⟩

theorem words_leveled {front : Text} (hfront : N front) {level : Int}
    (h : N (front ++ Text.ofInt level)) : ∀ w ∈ wordsOf (leveledLexemes front level), N w := by
  cases level with
  | ofNat n => exact List.forall_mem_singleton.mpr h
  | negSucc n => exact List.forall_mem_singleton.mpr hfront

theorem spoken_countHead (hN : Speech N) {level : Int} {bound : Expr} (h : bound.WellFormed)
    (hwords : bound.Spoken N) (hcounter : N (Name.counter level)) (hlimit : N (Name.limit level))
    (depth : Int) : Line.Spoken N width ⟨depth, countHead level bound⟩ := by
  have hi := words_leveled (hN.language "_i" (by decide)) hcounter
  have hn := words_leveled (hN.language "_n" (by decide)) hlimit
  have hfor := hN.language "for" (by decide)
  have hlet := hN.language "let" (by decide)
  refine spoken_code rfl (spells_countHead level h) (.inr ?_) depth
  simp only [countLexemes, wordsOf_append, wordsOf_word, wordsOf_mark, wordsOf_number, wordsOf_nil,
    Expr.wordsOf_fit, List.forall_mem_append, List.forall_mem_cons, List.not_mem_nil]
  grind [Expr.Spoken, Expr.words]

theorem spoken_end (depth : Int) : Line.Spoken N width ⟨depth, "\x7d"⟩ := by
  have hspells := spells_bracket (s := "\x7d") (m := .closeBrace) (by decide) []
  exact ⟨_, lineWords_code (c := '\x7d') (by decide) hspells depth, .inr (by simp)⟩

theorem spoken_else (hN : Speech N) (depth : Int) :
    Line.Spoken N width ⟨depth, "\x7d else \x7b"⟩ := by
  have hopen := spells_bracket (s := "\x7b") (m := .openBrace) (by decide) []
  have hword := spells_append (spells_leading (w := "else") (by decide) _) hopen
  have hspells := spells_append (spells_bracket (s := "\x7d") (m := .closeBrace) (by decide) _)
    (spells_append (spells_space _) hword)
  refine ⟨_, lineWords_code (c := '\x7d') (by decide) hspells depth, .inr ?_⟩
  simpa using hN.language "else" (by decide)

theorem spoken_jump (hN : Speech N) (j : Jump) (depth : Int) :
    Line.Spoken N width ⟨depth, j.word ++ ";"⟩ := by
  have hword : IsWord j.word := by cases j <;> decide
  have hstart : Text.opens isNameStart (j.word ++ ";") = true := by cases j <;> decide
  have hpass : N j.word := by cases j <;> exact hN.language _ (by decide)
  have hspells := spells_append (spells_word hword rfl) (spells_semicolon [])
  exact spoken_code hstart hspells (.inr (by simpa using hpass)) depth

theorem spoken_return (hN : Speech N) {e : Expr} (h : e.WellFormed) (hwords : e.Spoken N)
    (depth : Int) : Line.Spoken N width ⟨depth, "return " ++ e.render 0 ++ ";"⟩ := by
  have hword := spells_leading (w := "return") (by decide)
  have hspells := spells_append (spells_append (hword _) (e.spells_render h 0 ⟨rfl, rfl⟩))
    (spells_semicolon [])
  have hwords : ∀ w ∈ wordsOf e.bodyLexemes, N w := hwords
  refine spoken_code rfl hspells (.inr ?_) depth
  simpa [hN.language "return" (by decide)] using hwords

end Lines

namespace Stmt

variable {N : Text → Prop} {width : Nat}

mutual

/-- The words of the lines of a statement are its words. -/
theorem spoken_lines (hN : Speech N) (depth : Int) : (s : Stmt) → s.WellFormed .all → s.Spoken N →
    ∀ l ∈ s.lines depth, l.Spoken N width
  | .comment t, h, _ => List.forall_mem_singleton.mpr (spoken_comment h depth)
  | .run e, h, hwords => List.forall_mem_singleton.mpr (spoken_run h.1 h.2 hwords depth)
  | .set target e, h, hwords => List.forall_mem_singleton.mpr
      (spoken_assignment (s := "=") (by decide) h.1 h.2.1 h.2.2 hwords.1 hwords.2 depth)
  | .raise target e, h, hwords => List.forall_mem_singleton.mpr
      (spoken_assignment (s := "+=") (by decide) h.1 h.2.1 h.2.2 hwords.1 hwords.2 depth)
  | .jump j, _, _ => List.forall_mem_singleton.mpr (spoken_jump hN j depth)
  | .choose condition body other, h, hwords => by
    simp only [lines, List.forall_mem_append, List.forall_mem_cons]
    exact ⟨⟨⟨spoken_head (w := "if") (by decide) (hN.language _ (by decide)) h.1 hwords.1 depth,
      spoken_linesAll hN (depth + 1) body h.2.1 hwords.2.1⟩,
      spoken_linesElse hN depth other h.2.2 hwords.2.2⟩, spoken_end depth, by simp⟩
  | .count level bound body, h, ⟨hcounter, hlimit, hbound, hbody⟩ => by
    simp only [lines, List.forall_mem_append, List.forall_mem_cons]
    exact ⟨⟨spoken_countHead hN h.1 hbound hcounter hlimit depth,
      spoken_linesAll hN (depth + 1) body h.2 hbody⟩, spoken_end depth, by simp⟩
  | .loop condition body, h, hwords => by
    simp only [lines, List.forall_mem_append, List.forall_mem_cons]
    exact ⟨⟨spoken_head (w := "while") (by decide) (hN.language _ (by decide)) h.1 hwords.1 depth,
      spoken_linesAll hN (depth + 1) body h.2 hwords.2⟩, spoken_end depth, by simp⟩

theorem spoken_linesAll (hN : Speech N) (depth : Int) : (body : List Stmt) →
    AllWellFormed .all body → AllSpoken N body → ∀ l ∈ linesAll depth body, l.Spoken N width
  | [], _, _ => by simp [linesAll]
  | s :: rest, h, hwords => List.forall_mem_append.mpr
      ⟨spoken_lines hN depth s h.1 hwords.1, spoken_linesAll hN depth rest h.2 hwords.2⟩

theorem spoken_linesElse (hN : Speech N) (depth : Int) : (other : Option (List Stmt)) →
    ElseWellFormed .all other → ElseSpoken N other → ∀ l ∈ linesElse depth other, l.Spoken N width
  | none, _, _ => by simp [linesElse]
  | some body, h, hwords => List.forall_mem_cons.mpr
      ⟨spoken_else hN depth, spoken_linesAll hN (depth + 1) body h hwords⟩

end

end Stmt

end BlockScript
