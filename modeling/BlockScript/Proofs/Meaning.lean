-- Written blocks keep their meaning. The expression of a block forms the
-- tree that the block stands for, so its text is read back as that tree: no
-- operand is regrouped, swapped or dropped, at any place.
import BlockScript.Proofs.Grouping
import BlockScript.Proofs.Denotation
import BlockScript.Proofs.Names

namespace BlockScript

/-! ## Ids on one line -/

def Text.onOneLine (t : Text) : Bool := !t.contains (.char '\n')

mutual

/-- Whether no id that the block makes a name from has a line break in it, nor one inside of the
block. -/
def Node.idsOnOneLine : Node → Bool
  | .mk tag arguments _ labels =>
    labels.param.all Text.onOneLine && labels.function.all Text.onOneLine &&
      (tag.text?.bind ValueKind.ofTag? != some .getFuncVariable ||
        (arguments.head?.bind Argument.text?).all Text.onOneLine) &&
      Argument.idsOnOneLine arguments

def Argument.idsOnOneLine : List Argument → Bool
  | [] => true
  | .literal _ :: rest => Argument.idsOnOneLine rest
  | .block n :: rest => n.idsOnOneLine && Argument.idsOnOneLine rest

end

/-! ## Names are words -/

theorem isNamePart_of_isWord {g : Glyph} (h : g.isWord = true) : g.isNamePart = true := by
  cases g with
  | half n => cases h
  | char c =>
    simp only [Glyph.isWord, Bool.or_eq_true] at h
    simpa [Glyph.isNamePart, isNamePart] using Or.inl h

/-- What follows the family in a name is made of word glyphs. -/
theorem make_eq {family id name : Text} (hid : id.onOneLine = true)
    {drawn : Nat} (h : Name.make family (.str id) drawn = .ok name) :
    ∃ t, name = family ++ "_" ++ t ∧ ∀ g ∈ t, g.isWord = true := by
  have hline : .char '\n' ∉ id := by simpa [Text.onOneLine] using hid
  simp only [Name.make] at h
  split at h
  · cases h
    refine ⟨"anon_" ++ Text.hex 8 drawn, by simp [Name.anonymous, Text.ofString], ?_⟩
    exact List.forall_mem_append.mpr ⟨by decide, Name.isWord_hex 8 drawn⟩
  split at h
  · rename_i hclean
    cases h
    simp only [Name.isClean, dropFinalNewline_eq hline, Bool.and_eq_true,
      List.all_eq_true] at hclean
    exact ⟨id, rfl, hclean.2⟩
  · obtain ⟨t, ht, h⟩ := ok_of_bind_ok h
    cases h
    exact ⟨t, rfl, Name.mem_digested (fun _ h => h) ht⟩

/-- No reserved word has an underscore after its first letter. -/
theorem not_isReserved_underscore (c : Char) (t : Text) :
    isReserved (.char c :: .char '_' :: t) = false := by
  have hall : ∀ r ∈ reservedWords, (Text.ofString r)[1]? ≠ some (.char '_') := by decide
  unfold isReserved
  rw [List.any_eq_false]
  intro r hr heq
  exact hall r hr (by rw [of_decide_eq_true heq]; rfl)

theorem wellFormed_name {c : Char} (hc : isNameStart c = true) {id name : Text}
    (hid : id.onOneLine = true) {drawn : Nat} (h : Name.make [.char c] (.str id) drawn = .ok name) :
    (Expr.name name).WellFormed := by
  obtain ⟨t, rfl, ht⟩ := make_eq hid h
  refine ⟨isWord_cons_iff.mpr ⟨hc, ?_⟩, not_isReserved_underscore c t⟩
  intro g hg
  rcases List.mem_cons.mp hg with rfl | hg
  · rfl
  · exact isNamePart_of_isWord (ht g hg)

/-! ## Slots and parts -/

/-- The expression is well formed, and the tree is its tree. -/
def Expr.Forms (e : Expr) (t : Option Tree) : Prop := e.WellFormed ∧ t = some e.tree

/-- The slot and the part are of one argument, and what the slot compiles to forms the tree of the
part. -/
def Slot.Matches (s : Slot) (p : Part) : Prop :=
  s.given = p.given ∧ ∀ e, s.made = .ok e → e.Forms p.tree?

variable {slots : List Slot} {parts : List Part} {tag object : Json} {e : Expr}

theorem forms_slot (hm : List.Forall₂ Slot.Matches slots parts) {i : Nat}
    (h : slot tag slots i = .ok e) : e.Forms (treeAt parts i) := by
  induction hm generalizing i with
  | nil => simp [slot, fail] at h
  | cons hs hrest ih =>
    cases i with
    | zero => exact hs.2 e h
    | succ i => exact ih h

theorem slotLiteral_eq (hm : List.Forall₂ Slot.Matches slots parts) (i : Nat) (other : Json) :
    slotLiteral slots i other = literalAt parts i other := by
  induction hm generalizing i with
  | nil => rfl
  | cons hs hrest ih =>
    cases i with
    | zero => simp [slotLiteral, literalAt, hs.1]
    | succ i => exact ih i

/-! ## Common forms -/

namespace Expr

@[simp] theorem tree_method (e : Expr) (field : Text) (arguments : List Expr) :
    (e.method field arguments).tree = e.tree.method field (trees arguments) := rfl

@[simp] theorem tree_asString (e : Expr) : e.asString.tree = e.tree.asString := rfl

@[simp] theorem tree_entry : entry.tree = Tree.entry := rfl

@[simp] theorem tree_self : self.tree = Tree.self := rfl

@[simp] theorem tree_one : one.tree = Tree.one := rfl

@[simp] theorem trees_nil : trees [] = [] := rfl

@[simp] theorem trees_cons (e : Expr) (es : List Expr) : trees (e :: es) = e.tree :: trees es := rfl

@[simp] theorem tree_quoted (v : Json) : (quoted v).tree = Tree.quoted v := by
  cases v <;> rfl

theorem tree_ofLiteral (v : Json) : (ofLiteral v).tree = Tree.literal v := by
  cases v with
  | str t =>
    simp only [ofLiteral, Tree.literal]
    cases Numeral.read? t <;> rfl
  | _ => rfl

theorem wellFormed_entry : entry.WellFormed := ⟨by decide, by decide⟩

theorem wellFormed_self : self.WellFormed := ⟨by decide, by decide⟩

theorem wellFormed_one : one.WellFormed := toDigits_proper 1

theorem wellFormed_quoted (v : Json) : (quoted v).WellFormed := by
  cases v <;> trivial

theorem wellFormed_ofLiteral (v : Json) : (ofLiteral v).WellFormed := by
  cases v with
  | str t =>
    simp only [ofLiteral]
    split
    · rename_i n hn
      exact read_proper hn
    · trivial
  | _ => trivial

theorem wellFormed_asString {e : Expr} (h : e.WellFormed) : e.asString.WellFormed :=
  ⟨rfl, ⟨by decide, by decide⟩, h, trivial⟩

theorem wellFormed_method {e : Expr} {field : Text} {arguments : List Expr}
    (hcallee : e.isCallee = true) (he : e.WellFormed) (hfield : IsWord field)
    (ha : AllWellFormed arguments) : (e.method field arguments).WellFormed :=
  ⟨rfl, ⟨hcallee, he, hfield⟩, ha⟩

end Expr

/-! ## Operations -/

theorem forms_operation {op : Operator} (hm : List.Forall₂ Slot.Matches slots parts)
    (h : operation tag op slots = .ok e) : e.Forms (binaryTree op parts) := by
  cases hm with
  | nil => cases h
  | cons hleft hm =>
    cases hm with
    | nil => cases h
    | cons hright hm =>
      obtain ⟨left, hl, h⟩ := ok_of_bind_ok h
      obtain ⟨right, hr, h⟩ := ok_of_bind_ok h
      cases h
      obtain ⟨hwl, htl⟩ := hleft.2 left hl
      obtain ⟨hwr, htr⟩ := hright.2 right hr
      exact ⟨⟨hwl, hwr⟩, by simp [binaryTree, treeAt, htl, htr, Expr.tree]⟩

/-- A table of keys lists the words of these operators. -/
def Lists (keys : List (String × Operator)) (ops : List Operator) : Prop :=
  keys = ops.map fun op => (op.word, op)

theorem lookup_eq_find {keys : List (String × Operator)} {ops : List Operator}
    (hk : Lists keys ops) (t : Text) :
    lookup? t keys = ops.find? fun op => decide (t = Text.ofString op.word) := by
  subst hk
  induction ops with
  | nil => rfl
  | cons op ops ih =>
    by_cases h : t = Text.ofString op.word
    · simp [lookup?, h]
    · simp only [List.map_cons, lookup?, List.find?_cons, h, decide_false, if_neg (Ne.symm h)]
      exact ih

theorem operatorIn_eq {keys : List (String × Operator)} {ops : List Operator}
    (hk : Lists keys ops) {s : Slot} {p : Part} (hs : s.Matches p) {found : Option Operator}
    (h : operatorIn keys s = .ok found) : found = p.operator? ops := by
  rw [Part.operator?, ← hs.1]
  unfold operatorIn at h
  split at h
  · rename_i t ht
    cases h
    rw [lookup_eq_find hk, ht]
    rfl
  · rename_i v hne hv
    split at h
    · cases h
      rw [hv]
      cases v with
      | str t => exact absurd rfl (hne t)
      | _ => rfl
    · cases h
  · rename_i n hn
    cases h
    rw [hn]
    rfl

/-- The operator that is found is the first one that an argument names, and the operands are the
other arguments in their order. -/
theorem findOperator_eq {keys : List (String × Operator)} {ops : List Operator}
    (hk : Lists keys ops) (hm : List.Forall₂ Slot.Matches slots parts) {op : Operator}
    {operands : List Slot} (h : findOperator keys slots = .ok (some (op, operands))) :
    ∃ i, parts.findIdx? (fun p => (p.operator? ops).isSome) = some i ∧
      parts[i]?.bind (Part.operator? ops) = some op ∧
      List.Forall₂ Slot.Matches operands (parts.eraseIdx i) := by
  induction hm generalizing operands with
  | nil => cases h
  | @cons s p slots parts hs hrest ih =>
    obtain ⟨found, hfound, h⟩ := ok_of_bind_ok h
    have hop := operatorIn_eq hk hs hfound
    cases found with
    | some op' =>
      cases h
      refine ⟨0, ?_, ?_, ?_⟩
      · simp [List.findIdx?_cons, ← hop]
      · simp [← hop]
      · simpa using hrest
    | none =>
      obtain ⟨more, hmore, h⟩ := ok_of_bind_ok h
      cases more with
      | none => cases h
      | some r =>
        cases h
        obtain ⟨i, hi, hopi, hoperands⟩ := ih hmore
        refine ⟨i + 1, ?_, ?_, ?_⟩
        · simp [List.findIdx?_cons, ← hop, hi]
        · simpa using hopi
        · simpa using ⟨hs, hoperands⟩

theorem forms_keyedOperation {keys : List (String × Operator)} {ops : List Operator}
    (hk : Lists keys ops) (hm : List.Forall₂ Slot.Matches slots parts)
    (h : keyedOperation keys tag slots = .ok e) : e.Forms (operationTree ops parts) := by
  unfold keyedOperation at h
  split at h
  · cases h
  · cases h
  · rename_i op operands hfind
    obtain ⟨i, hi, hop, hoperands⟩ := findOperator_eq hk hm hfind
    simpa [operationTree, hi, hop] using forms_operation hoperands h

theorem matches_filter (hm : List.Forall₂ Slot.Matches slots parts) {f : Slot → Bool}
    {g : Part → Bool} (h : ∀ s p, s.Matches p → f s = g p) :
    List.Forall₂ Slot.Matches (slots.filter f) (parts.filter g) := by
  induction hm with
  | nil => exact .nil
  | @cons s p slots parts hs hrest ih =>
    rw [List.filter_cons, List.filter_cons, h s p hs]
    split
    · exact .cons hs ih
    · exact ih

theorem filterMap_eq {α : Type} (hm : List.Forall₂ Slot.Matches slots parts) {f : Slot → Option α}
    {g : Part → Option α} (h : ∀ s p, s.Matches p → f s = g p) :
    slots.filterMap f = parts.filterMap g := by
  induction hm with
  | nil => rfl
  | @cons s p slots parts hs hrest ih => rw [List.filterMap_cons, List.filterMap_cons, h s p hs, ih]

theorem divisionMode_eq (s : Slot) :
    divisionMode? s = s.given.text?.bind fun t =>
      if t = Text.ofString "MOD" then some true
      else if t = Text.ofString "QUOTIENT" then some false
      else none := by
  obtain ⟨a, made⟩ := s
  cases a with
  | literal v => cases v <;> rfl
  | block n => rfl

theorem functionWord_eq (s : Slot) :
    functionWord? s = s.given.text?.filter fun t => (Numeral.read? t).isNone := by
  obtain ⟨a, made⟩ := s
  cases a with
  | literal v => cases v <;> rfl
  | block n => rfl

theorem mode_eq {s : Slot} {p : Part} (hs : s.Matches p) :
    p.mode? = (divisionMode? s).map fun r => if r then .remainder else .divide := by
  rw [divisionMode_eq, hs.1]
  unfold Part.mode? Part.holds
  cases p.given.text? with
  | none => rfl
  | some t =>
    simp only [Option.some.injEq, decide_eq_true_eq, Option.bind_some]
    split
    · rfl
    · split <;> rfl

theorem forms_division (hm : List.Forall₂ Slot.Matches slots parts)
    (h : division tag slots = .ok e) : e.Forms (divisionTree parts) := by
  have hoperands : List.Forall₂ Slot.Matches (slots.filter fun s => (divisionMode? s).isNone)
      (parts.filter fun p => p.mode?.isNone) := by
    apply matches_filter hm
    intro s p hs
    rw [mode_eq hs, Option.isNone_map]
  have hmode : (parts.filterMap Part.mode?).getLast? = (slots.filterMap divisionMode?).getLast?.map
      fun r => if r then .remainder else .divide := by
    rw [← filterMap_eq hm fun s p hs => (mode_eq hs).symm, ← List.map_filterMap, List.getLast?_map]
  unfold division at h
  unfold divisionTree
  rw [hmode]
  simp only at h ⊢
  split at h
  · rename_i hlast
    rw [hlast]
    exact forms_operation hoperands h
  · rename_i hlast
    obtain ⟨quotient, hq, h⟩ := ok_of_bind_ok h
    cases h
    obtain ⟨hw, ht⟩ := forms_operation hoperands hq
    refine ⟨Expr.wellFormed_method rfl ⟨by decide, by decide⟩ (by decide) ⟨hw, trivial⟩, ?_⟩
    cases hr : (slots.filterMap divisionMode?).getLast? with
    | none => simp [ht, Expr.tree]
    | some r =>
      cases r with
      | true => exact absurd hr hlast
      | false => simp [ht, Expr.tree]

theorem forms_mathematics (hm : List.Forall₂ Slot.Matches slots parts)
    (h : mathematics tag slots = .ok e) : e.Forms (functionTree parts) := by
  have hword : ∀ s p, Slot.Matches s p → functionWord? s = p.word? := by
    intro s p hs
    rw [functionWord_eq, hs.1]
    rfl
  have hwords := filterMap_eq hm hword
  have hoperands := matches_filter hm (f := fun s => (functionWord? s).isNone)
    (g := fun p => p.word?.isNone) fun s p hs => by rw [hword s p hs]
  unfold mathematics at h
  split at h
  · rename_i word operand hlast hfind
    obtain ⟨value, hv, h⟩ := ok_of_bind_ok h
    cases h
    rw [← List.head?_filter] at hfind
    obtain ⟨more, hslots⟩ := List.head?_eq_some_iff.mp hfind
    rw [hslots] at hoperands
    cases hparts : parts.filter fun p => p.word?.isNone with
    | nil => rw [hparts] at hoperands; cases hoperands
    | cons p more' =>
      rw [hparts] at hoperands
      cases hoperands with
      | cons hp _ =>
        obtain ⟨hw, ht⟩ := hp.2 value hv
        refine ⟨Expr.wellFormed_method rfl Expr.wellFormed_entry (by decide)
          ⟨trivial, hw, trivial⟩, ?_⟩
        have hfirst : parts.find? (fun p => p.word?.isNone) = some p := by
          rw [← List.head?_filter, hparts]
          rfl
        simp [functionTree, ← hwords, hlast, hfirst, ht, Expr.tree]
  · cases h

/-! ## Reads -/

theorem forms_stringSlot (hm : List.Forall₂ Slot.Matches slots parts) {i : Nat}
    (h : stringSlot tag slots i = .ok e) : e.isCallee = true ∧ e.Forms (stringAt parts i) := by
  obtain ⟨value, hv, h⟩ := ok_of_bind_ok h
  cases h
  obtain ⟨hw, ht⟩ := forms_slot hm hv
  exact ⟨rfl, Expr.wellFormed_asString hw, by simp [stringAt, ht]⟩

theorem forms_targetCall {callee : Expr} (hm : List.Forall₂ Slot.Matches slots parts)
    (h : targetCall callee tag slots = .ok e) (hcallee : callee.isCallee = true)
    (hw : callee.WellFormed) : e.Forms (targetTree callee.tree parts) := by
  unfold targetCall at h
  unfold targetTree
  rw [slotLiteral_eq hm] at h
  split at h
  · cases h
  · rename_i v hne
    cases h
    refine ⟨⟨hcallee, hw, Expr.wellFormed_quoted _, trivial⟩, ?_⟩
    simp [Expr.tree]

theorem forms_listOf (hm : List.Forall₂ Slot.Matches slots parts) (h : listOf? slots = some e) :
    e.isCallee = true ∧ e.Forms (listTree parts) := by
  unfold listOf? at h
  unfold listTree targetTree
  rw [slotLiteral_eq hm] at h
  split at h
  · cases h
  · rename_i v hne
    cases h
    refine ⟨rfl, Expr.wellFormed_method rfl Expr.wellFormed_entry (by decide)
      ⟨Expr.wellFormed_quoted _, trivial⟩, ?_⟩
    simp [Tree.method]

theorem forms_listCall {field : Text} (hfield : IsWord field)
    (hm : List.Forall₂ Slot.Matches slots parts) (h : listCall field tag slots = .ok e) :
    e.Forms do return (← listTree parts).method field [← treeAt parts 1] := by
  unfold listCall at h
  simp only at h
  split at h
  · cases h
  · cases h
  · rename_i l hl _
    obtain ⟨value, hv, h⟩ := ok_of_bind_ok h
    cases h
    obtain ⟨hcallee, hwl, htl⟩ := forms_listOf hm hl
    obtain ⟨hw, ht⟩ := forms_slot hm hv
    exact ⟨Expr.wellFormed_method hcallee hwl hfield ⟨hw, trivial⟩, by simp [htl, ht]⟩

theorem mem_of_lookup {α : Type} {key : Text} {table : List (String × α)} {a : α}
    (h : lookup? key table = some a) : ∃ k, (k, a) ∈ table := by
  induction table with
  | nil => cases h
  | cons entry rest ih =>
    obtain ⟨k, b⟩ := entry
    simp only [lookup?] at h
    split at h
    · cases h
      exact ⟨k, by simp⟩
    · obtain ⟨k', hk'⟩ := ih h
      exact ⟨k', by simp [hk']⟩

theorem isWord_property {key : Text} {field : String} (h : lookup? key propertyKeys = some field) :
    IsWord field := by
  have hall : ∀ entry ∈ propertyKeys, IsWord (Text.ofString entry.2) := by decide
  obtain ⟨k, hk⟩ := mem_of_lookup h
  exact hall _ hk

theorem forms_objectNamed (object target : Json) :
    (objectNamed object target).isCallee = true ∧
      (objectNamed object target).Forms (objectTree object target) := by
  unfold objectNamed objectTree
  split
  · exact ⟨rfl, Expr.wellFormed_self, rfl⟩
  · refine ⟨rfl, Expr.wellFormed_method rfl Expr.wellFormed_entry (by decide)
      ⟨Expr.wellFormed_quoted target, trivial⟩, ?_⟩
    simp

theorem forms_property (hm : List.Forall₂ Slot.Matches slots parts)
    (h : property object tag slots = .ok e) : e.Forms (propertyTree object parts) := by
  unfold property at h
  rw [slotLiteral_eq hm, slotLiteral_eq hm] at h
  simp only at h
  split at h
  · cases h
  split at h
  · cases h
  · cases h
  · rename_i field hkey hne
    cases h
    obtain ⟨k, hk, hfield⟩ := Option.bind_eq_some_iff.mp hkey
    obtain ⟨hcallee, hw, ht⟩ := forms_objectNamed object (literalAt parts 0 .null)
    refine ⟨⟨hcallee, hw, isWord_property hfield⟩, ?_⟩
    simp only [Option.some.injEq] at ht
    simp [propertyTree, hk, hfield, Expr.tree, ht]

theorem forms_changeCase (hm : List.Forall₂ Slot.Matches slots parts)
    (h : changeCase tag slots = .ok e) :
    e.Forms (ValueKind.changeStringCase.tree? object parts) := by
  obtain ⟨text, htext, h⟩ := ok_of_bind_ok h
  obtain ⟨hcallee, hw, ht⟩ := forms_stringSlot hm htext
  rw [slotLiteral_eq hm] at h
  simp only at h
  split at h
  · cases h
  split at h
  · rename_i word hword
    split at h
    · rename_i hcase
      cases h
      have hfield : IsWord word := by rcases hcase with rfl | rfl <;> decide
      refine ⟨Expr.wellFormed_method hcallee hw hfield trivial, ?_⟩
      simp [ValueKind.tree?, ht, hword, Json.text?]
    · cases h
  · cases h

theorem forms_number (hm : List.Forall₂ Slot.Matches slots parts) (h : number slots = .ok e)
    (object : Json) : e.Forms (ValueKind.number.tree? object parts) := by
  unfold number at h
  rw [slotLiteral_eq hm] at h
  unfold ValueKind.tree?
  split at h
  · rename_i hempty
    cases h
    exact ⟨trivial, by rw [hempty]; rfl⟩
  · rename_i hne
    cases h
    refine ⟨Expr.wellFormed_ofLiteral _, ?_⟩
    simp [Expr.tree_ofLiteral]

/-! ## Strings -/

theorem forms_lengthOfString (hm : List.Forall₂ Slot.Matches slots parts)
    (h : ValueKind.lengthOfString.compile object tag slots = .ok e) :
    e.Forms (ValueKind.lengthOfString.tree? object parts) := by
  obtain ⟨text, htext, h⟩ := ok_of_bind_ok h
  cases h
  obtain ⟨hcallee, hw, ht⟩ := forms_stringSlot hm htext
  exact ⟨⟨hcallee, hw, by decide⟩, by simp [ValueKind.tree?, ht, Expr.tree]⟩

theorem forms_combineSomething (hm : List.Forall₂ Slot.Matches slots parts)
    (h : ValueKind.combineSomething.compile object tag slots = .ok e) :
    e.Forms (ValueKind.combineSomething.tree? object parts) := by
  obtain ⟨left, hl, h⟩ := ok_of_bind_ok h
  obtain ⟨right, hr, h⟩ := ok_of_bind_ok h
  cases h
  obtain ⟨-, hwl, htl⟩ := forms_stringSlot hm hl
  obtain ⟨-, hwr, htr⟩ := forms_stringSlot hm hr
  exact ⟨⟨hwl, hwr⟩, by simp [ValueKind.tree?, htl, htr, Expr.tree]⟩

theorem forms_charAt (hm : List.Forall₂ Slot.Matches slots parts)
    (h : ValueKind.charAt.compile object tag slots = .ok e) :
    e.Forms (ValueKind.charAt.tree? object parts) := by
  obtain ⟨text, htext, h⟩ := ok_of_bind_ok h
  obtain ⟨index, hindex, h⟩ := ok_of_bind_ok h
  cases h
  obtain ⟨hcallee, hwt, htt⟩ := forms_stringSlot hm htext
  obtain ⟨hwi, hti⟩ := forms_slot hm hindex
  refine ⟨?_, by simp [ValueKind.tree?, htt, hti, Expr.tree]⟩
  exact Expr.wellFormed_method hcallee hwt (by decide) ⟨⟨hwi, Expr.wellFormed_one⟩, trivial⟩

theorem forms_substring (hm : List.Forall₂ Slot.Matches slots parts)
    (h : ValueKind.substring.compile object tag slots = .ok e) :
    e.Forms (ValueKind.substring.tree? object parts) := by
  obtain ⟨text, htext, h⟩ := ok_of_bind_ok h
  obtain ⟨first, hfirst, h⟩ := ok_of_bind_ok h
  obtain ⟨last, hlast, h⟩ := ok_of_bind_ok h
  cases h
  obtain ⟨hcallee, hwt, htt⟩ := forms_stringSlot hm htext
  obtain ⟨hwf, htf⟩ := forms_slot hm hfirst
  obtain ⟨hwl, htl⟩ := forms_slot hm hlast
  refine ⟨?_, by simp [ValueKind.tree?, htt, htf, htl, Expr.tree]⟩
  exact Expr.wellFormed_method hcallee hwt (by decide) ⟨⟨hwf, Expr.wellFormed_one⟩, hwl, trivial⟩

theorem forms_indexOfString (hm : List.Forall₂ Slot.Matches slots parts)
    (h : ValueKind.indexOfString.compile object tag slots = .ok e) :
    e.Forms (ValueKind.indexOfString.tree? object parts) := by
  obtain ⟨text, htext, h⟩ := ok_of_bind_ok h
  obtain ⟨sought, hsought, h⟩ := ok_of_bind_ok h
  cases h
  obtain ⟨hcallee, hwt, htt⟩ := forms_stringSlot hm htext
  obtain ⟨hws, hts⟩ := forms_slot hm hsought
  refine ⟨⟨?_, Expr.wellFormed_one⟩, by simp [ValueKind.tree?, htt, hts, Expr.tree]⟩
  exact Expr.wellFormed_method hcallee hwt (by decide) ⟨hws, trivial⟩

theorem forms_replaceString (hm : List.Forall₂ Slot.Matches slots parts)
    (h : ValueKind.replaceString.compile object tag slots = .ok e) :
    e.Forms (ValueKind.replaceString.tree? object parts) := by
  obtain ⟨text, htext, h⟩ := ok_of_bind_ok h
  obtain ⟨old, hold, h⟩ := ok_of_bind_ok h
  obtain ⟨new, hnew, h⟩ := ok_of_bind_ok h
  cases h
  obtain ⟨hcallee, hwt, htt⟩ := forms_stringSlot hm htext
  obtain ⟨hwo, hto⟩ := forms_slot hm hold
  obtain ⟨hwn, htn⟩ := forms_slot hm hnew
  refine ⟨?_, by simp [ValueKind.tree?, htt, hto, htn]⟩
  exact Expr.wellFormed_method hcallee hwt (by decide) ⟨hwo, hwn, trivial⟩

/-! ## Names -/

theorem named_eq_ok {n : Except EncodeError Text} {t : Text} (h : named n = .ok t) : n = .ok t := by
  cases n with
  | error e => cases h
  | ok t' =>
    cases h
    rfl

theorem forms_localVariable (hm : List.Forall₂ Slot.Matches slots parts)
    (hid : ∀ id, literalAt parts 0 .null = .str id → id.onOneLine = true)
    (h : localVariable tag slots = .ok e) :
    e.Forms (ValueKind.getFuncVariable.tree? object parts) := by
  unfold localVariable at h
  rw [slotLiteral_eq hm] at h
  simp only at h
  split at h
  · rename_i hstable
    obtain ⟨name, hname, h⟩ := ok_of_bind_ok h
    cases h
    have hname := named_eq_ok hname
    cases hliteral : literalAt parts 0 .null with
    | str id =>
      rw [hliteral] at hname
      exact ⟨wellFormed_name (by decide) (hid id hliteral) hname,
        by simp [ValueKind.tree?, hliteral, hname, Except.toOption, Expr.tree]⟩
    | _ => simp [hliteral, Name.isStable] at hstable
  · cases h

theorem forms_slots (hm : List.Forall₂ Slot.Matches slots parts) {es : List Expr}
    (h : slots.mapM (fun s => s.made) = .ok es) :
    Expr.AllWellFormed es ∧ parts.mapM Part.tree? = some (Expr.trees es) := by
  induction hm generalizing es with
  | nil =>
    cases h
    exact ⟨trivial, rfl⟩
  | @cons s p slots parts hs hrest ih =>
    rw [List.mapM_cons] at h
    obtain ⟨e, he, h⟩ := ok_of_bind_ok h
    obtain ⟨es', hes, h⟩ := ok_of_bind_ok h
    cases h
    obtain ⟨hw, ht⟩ := hs.2 e he
    obtain ⟨hws, hts⟩ := ih hes
    exact ⟨⟨hw, hws⟩, by simp [ht, hts]⟩

theorem forms_functionCall {id : Text} (hm : List.Forall₂ Slot.Matches slots parts)
    (hid : id.onOneLine = true) {drawn : Nat} (h : functionCall id drawn slots = .ok e) :
    e.Forms (functionCallTree id drawn parts) := by
  obtain ⟨arguments, ha, h⟩ := ok_of_bind_ok h
  obtain ⟨name, hname, h⟩ := ok_of_bind_ok h
  cases h
  have hname := named_eq_ok hname
  have hword := (wellFormed_name (c := 'f') (by decide) hid hname).1
  obtain ⟨hws, hts⟩ := forms_slots hm ha
  refine ⟨?_, by simp [functionCallTree, hname, Except.toOption, hts, Expr.tree]⟩
  exact Expr.wellFormed_method rfl ⟨rfl, Expr.wellFormed_entry, by decide⟩ hword
    ⟨Expr.wellFormed_self, hws⟩

theorem forms_namedValue {labels : Labels} (hm : List.Forall₂ Slot.Matches slots parts)
    (hparam : labels.param.all Text.onOneLine = true)
    (hfunction : labels.function.all Text.onOneLine = true)
    (h : namedValue tag labels slots = .ok e) : e.Forms (labelTree labels parts) := by
  have hline : ∀ {o : Option Text} {id : Text}, o.all Text.onOneLine = true →
      o.filter (!·.isEmpty) = some id → id.onOneLine = true := by
    intro o id ho hf
    rw [(Option.filter_eq_some_iff.mp hf).1] at ho
    exact ho
  unfold namedValue at h
  unfold labelTree
  cases hp : labels.param.filter (!·.isEmpty) with
  | some id =>
    rw [hp] at h
    obtain ⟨name, hname, h⟩ := ok_of_bind_ok h
    cases h
    have hname := named_eq_ok hname
    exact ⟨wellFormed_name (by decide) (hline hparam hp) hname,
      by simp [hname, Except.toOption, Expr.tree]⟩
  | none =>
    cases hf : labels.function.filter (!·.isEmpty) with
    | some id =>
      rw [hp, hf] at h
      exact forms_functionCall hm (hline hfunction hf) h
    | none =>
      rw [hp, hf] at h
      cases h

/-! ## Every kind -/

theorem forms_compile {kind : ValueKind} (hm : List.Forall₂ Slot.Matches slots parts)
    (hid : kind = .getFuncVariable → ∀ id, literalAt parts 0 .null = .str id → id.onOneLine = true)
    (h : kind.compile object tag slots = .ok e) : e.Forms (kind.tree? object parts) := by
  cases kind with
  | number | angle => exact forms_number hm h object
  | text | getPictures | getSounds =>
    cases h
    refine ⟨Expr.wellFormed_quoted _, ?_⟩
    simp [ValueKind.tree?, slotLiteral_eq hm]
  | yes | no =>
    cases h
    exact ⟨⟨by decide, by decide⟩, rfl⟩
  | calcBasic | booleanBasicOperator | booleanAndOr => exact forms_keyedOperation rfl hm h
  | booleanAnd | booleanOr => exact forms_operation hm h
  | booleanNot =>
    obtain ⟨value, hv, h⟩ := ok_of_bind_ok h
    cases h
    obtain ⟨hw, ht⟩ := forms_slot hm hv
    exact ⟨hw, by simp [ValueKind.tree?, ht, Expr.tree]⟩
  | quotientAndMod => exact forms_division hm h
  | calcOperation => exact forms_mathematics hm h
  | calcRand =>
    obtain ⟨low, hlow, h⟩ := ok_of_bind_ok h
    obtain ⟨high, hhigh, h⟩ := ok_of_bind_ok h
    cases h
    obtain ⟨hwl, htl⟩ := forms_slot hm hlow
    obtain ⟨hwh, hth⟩ := forms_slot hm hhigh
    exact ⟨Expr.wellFormed_method rfl Expr.wellFormed_entry (by decide) ⟨hwl, hwh, trivial⟩,
      by simp [ValueKind.tree?, htl, hth]⟩
  | lengthOfString => exact forms_lengthOfString hm h
  | combineSomething => exact forms_combineSomething hm h
  | charAt => exact forms_charAt hm h
  | substring => exact forms_substring hm h
  | indexOfString => exact forms_indexOfString hm h
  | replaceString => exact forms_replaceString hm h
  | changeStringCase => exact forms_changeCase hm h
  | getVariable =>
    exact forms_targetCall hm h rfl ⟨rfl, ⟨rfl, Expr.wellFormed_entry, by decide⟩, by decide⟩
  | valueOfIndexFromList | isIncludedInList => exact forms_listCall (by decide) hm h
  | lengthOfList =>
    simp only [ValueKind.compile] at h
    split at h
    · rename_i l hl
      cases h
      obtain ⟨hcallee, hw, ht⟩ := forms_listOf hm hl
      exact ⟨⟨hcallee, hw, by decide⟩, by simp [ValueKind.tree?, ht, Expr.tree]⟩
    · cases h
  | coordinateMouse =>
    simp only [ValueKind.compile, slotLiteral_eq hm] at h
    split at h
    · rename_i axis haxis
      split at h
      · rename_i hword
        cases h
        have hfield : IsWord axis := by rcases hword with rfl | rfl <;> decide
        exact ⟨⟨rfl, ⟨rfl, Expr.wellFormed_entry, by decide⟩, hfield⟩,
          by simp [ValueKind.tree?, haxis, Json.text?, Expr.tree]⟩
      · cases h
    · cases h
  | coordinateObject => exact forms_property hm h
  | distanceSomething | reachSomething =>
    exact forms_targetCall hm h rfl ⟨rfl, Expr.wellFormed_self, by decide⟩
  | getDate => exact forms_targetCall hm h rfl ⟨rfl, Expr.wellFormed_entry, by decide⟩
  | isPressSomeKey =>
    obtain ⟨key, hkey, h⟩ := ok_of_bind_ok h
    cases h
    obtain ⟨hw, ht⟩ := forms_slot hm hkey
    exact ⟨Expr.wellFormed_method rfl Expr.wellFormed_entry (by decide) ⟨hw, trivial⟩,
      by simp [ValueKind.tree?, ht]⟩
  | isClicked | calcTimerValue | getSoundVolume =>
    cases h
    exact ⟨⟨rfl, ⟨rfl, Expr.wellFormed_entry, by decide⟩, by decide⟩, rfl⟩
  | getCanvasInputValue =>
    cases h
    exact ⟨⟨rfl, Expr.wellFormed_entry, by decide⟩, rfl⟩
  | getFuncVariable => exact forms_localVariable hm (hid rfl) h

theorem forms_valueOf {labels : Labels} (hm : List.Forall₂ Slot.Matches slots parts)
    (hparam : labels.param.all Text.onOneLine = true)
    (hfunction : labels.function.all Text.onOneLine = true)
    (hlocal : tag.text?.bind ValueKind.ofTag? = some .getFuncVariable →
      ∀ id, literalAt parts 0 .null = .str id → id.onOneLine = true)
    (h : valueOf {} object tag labels slots = .ok e) :
    e.Forms (match tag.text?.bind ValueKind.ofTag? with
      | some kind => kind.tree? object parts
      | none => labelTree labels parts) := by
  unfold valueOf at h
  cases tag with
  | str t =>
    simp only [extension?] at h
    simp only [Json.text?, Option.bind_some] at hlocal ⊢
    cases hkind : ValueKind.ofTag? t with
    | some kind =>
      rw [hkind] at h
      exact forms_compile hm (fun hk => hlocal (by rw [hkind, hk])) h
    | none =>
      rw [hkind] at h
      exact forms_namedValue hm hparam hfunction h
  | _ =>
    simp only at h
    split at h
    · exact forms_namedValue hm hparam hfunction h
    · cases h

/-! ## Nodes -/

/-- The first plain value among the parts is that of the first argument. -/
theorem literalAt_parts (arguments : List Argument) {id : Text}
    (h : literalAt (Argument.parts object arguments) 0 .null = .str id) :
    arguments.head?.bind Argument.text? = some id := by
  cases arguments with
  | nil => cases h
  | cons a rest =>
    cases a with
    | block n => cases h
    | literal v =>
      have hv : v = .str id := h
      rw [hv]
      rfl

mutual

/-- The expression of a block forms the tree that the block stands for. -/
theorem forms_value (n : Node) (hids : n.idsOnOneLine = true) (e : Expr)
    (h : n.value {} object = .ok e) : e.Forms (n.tree? object) := by
  match n with
  | .mk tag arguments branches labels =>
    simp only [Node.idsOnOneLine, Bool.and_eq_true] at hids
    obtain ⟨⟨⟨hparam, hfunction⟩, hlocal⟩, harguments⟩ := hids
    refine forms_valueOf (matches_slots arguments harguments) hparam hfunction ?_ h
    intro hkind id hid
    simpa [hkind, literalAt_parts arguments hid] using hlocal

theorem matches_slots (arguments : List Argument) (hids : Argument.idsOnOneLine arguments = true) :
    List.Forall₂ Slot.Matches (Argument.slots {} object arguments)
      (Argument.parts object arguments) := by
  match arguments with
  | [] => exact .nil
  | .literal v :: rest =>
    refine .cons ⟨rfl, ?_⟩ (matches_slots rest hids)
    intro e he
    cases he
    exact ⟨Expr.wellFormed_ofLiteral v, by rw [Expr.tree_ofLiteral]⟩
  | .block n :: rest =>
    simp only [Argument.idsOnOneLine, Bool.and_eq_true] at hids
    exact .cons ⟨rfl, forms_value n hids.1⟩ (matches_slots rest hids.2)

end

end BlockScript
