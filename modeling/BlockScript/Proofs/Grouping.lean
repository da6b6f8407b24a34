-- Written expressions group as they are meant to. The lexemes of an operand
-- are read as one operand wherever its place lets it stand without
-- parentheses, and so the tree that is read is the tree that was written.
import BlockScript.Proofs.Written

namespace BlockScript

namespace Tree

/-! ## Operands of a tier -/

/-- Nothing here goes on with an operand, nor with a chain of the tiers. -/
def Closes (within : List Tier) (rest : List Lexeme) : Prop :=
  EndsOperand rest ∧ ∀ tier ∈ within, Stops tier rest

/-- The lexemes are an expression whose operators are all of the given tiers. An operator of the
loosest of these may still follow, with the whole expression as its left operand. -/
def Groups : List Tier → List Lexeme → Tree → Prop
  | [], ts, e => ∀ rest, EndsOperand rest → Yields (readUnary (ts ++ rest)) e rest
  | tier :: tighter, ts, e =>
    ∀ rest e' rest', Closes tighter rest → Yields (readMore tier tighter e rest) e' rest' →
      Yields (readChain (tier :: tighter) (ts ++ rest)) e' rest'

theorem reads_of_groups {within : List Tier} {ts rest : List Lexeme} {e : Tree}
    (h : Groups within ts e) (hr : Closes within rest) :
    Yields (readChain within (ts ++ rest)) e rest := by
  cases within with
  | nil => exact yields_nil (h rest hr.1)
  | cons tier tighter =>
    have hstop : Yields (readMore tier tighter e rest) e rest := yields_stop (hr.2 tier (by simp))
    exact h rest e rest ⟨hr.1, fun t ht => hr.2 t (by simp [ht])⟩ hstop

theorem groups_cons {tighter : List Tier} {ts : List Lexeme} {e : Tree} (h : Groups tighter ts e)
    (tier : Tier) : Groups (tier :: tighter) ts e :=
  fun _ _ _ hr hmore => yields_chain (reads_of_groups h hr) hmore

/-- What stands among tighter operators stands among looser ones too. -/
theorem groups_of_suffix {tighter within : List Tier} {ts : List Lexeme} {e : Tree}
    (h : Groups tighter ts e) (hs : tighter <:+ within) : Groups within ts e := by
  obtain ⟨looser, rfl⟩ := hs
  induction looser with
  | nil => exact h
  | cons tier looser ih => exact groups_cons ih tier

/-- An operator takes a chain of its own tier on the left and a tighter operand on the right. -/
theorem groups_binary {op : Operator} {tighter : List Tier} {ls rs : List Lexeme}
    {left right : Tree}
    (hop : op.tier ∉ tighter) (hl : Groups (op.tier :: tighter) ls left)
    (hr : Groups tighter rs right) :
    Groups (op.tier :: tighter) (ls ++ .mark (.operator op) :: rs) (.binary op left right) := by
  intro rest e' rest' hrest hmore
  rw [List.append_assoc]
  refine hl _ e' rest' ⟨?_, ?_⟩ (yields_operator (reads_of_groups hr hrest) hmore)
  · rintro m rest heq
    cases heq
    exact ⟨nofun, nofun⟩
  · rintro tier htier op' rest heq
    cases heq
    exact fun h => hop (h ▸ htier)

/-! ## Plain operands -/

theorem groups_primary {t : Lexeme} {ts : List Lexeme} {e : Tree} (ht : StartsOperand t)
    (h : ∀ rest, Yields (readPrimary (t :: (ts ++ rest))) e rest) : Groups [] (t :: ts) e :=
  fun rest hr => yields_operand ht (yields_call (h rest) (yields_end hr))

theorem groups_signed (negative : Bool) {ts : List Lexeme} {e : Tree} (h : Groups [] ts e) :
    Groups [] (signLexemes negative ++ ts) (Tree.signed negative e) := by
  cases negative with
  | false => exact h
  | true => exact fun rest hr => yields_negate (h rest hr)

theorem groups_number (m : Magnitude) : Groups [] [.number m] (.number m) :=
  groups_primary trivial (yields_number m)

theorem groups_string (units : List Nat) : Groups [] [.string units] (.string units) :=
  groups_primary trivial (yields_string units)

theorem groups_name {w : Text} (h : isReserved w = false) : Groups [] [.word w] (.name w) :=
  groups_primary h (yields_name h)

/-- What may follow a whole expression inside of brackets. -/
def closers : List Mark := [.closeParen, .closeBracket, .closeBrace, .comma]

theorem closes_mark {m : Mark} (h : m ∈ closers) (within : List Tier) (rest : List Lexeme) :
    Closes within (.mark m :: rest) := by
  simp only [closers, List.mem_cons, List.not_mem_nil, or_false] at h
  refine ⟨?_, ?_⟩
  · rintro m' rest' heq
    cases heq
    rcases h with rfl | rfl | rfl | rfl <;> exact ⟨nofun, nofun⟩
  · rintro tier - op rest' heq
    cases heq
    rcases h with h | h | h | h <;> cases h

/-- An expression of any tiers in parentheses is an operand. -/
theorem groups_paren {ts : List Lexeme} {e : Tree} (h : Groups tiers ts e) :
    Groups [] (.mark .openParen :: (ts ++ [.mark .closeParen])) e := by
  refine groups_primary (t := .mark .openParen) ⟨nofun, nofun⟩ ?_
  intro rest
  apply yields_paren
  rw [List.append_assoc]
  exact reads_of_groups h (closes_mark (by decide) tiers rest)

/-! ## Lists -/

theorem readChain_close {close : Mark} (hclose : close ∈ closers) (within : List Tier)
    (ts : List Lexeme) : readChain within (.mark close :: ts) = none := by
  simp only [closers, List.mem_cons, List.not_mem_nil, or_false] at hclose
  induction within with
  | nil =>
    rw [readChain]
    rcases hclose with rfl | rfl | rfl | rfl <;>
      rw [readUnary.eq_def] <;> simp only [readCall, readPrimary] <;> rfl
  | cons tier tighter ih =>
    rw [readChain, ih]
    rfl

theorem readItems_close {close : Mark} (hclose : close ∈ closers) (ts : List Lexeme) :
    readItems close (.mark close :: ts) = none := by
  rw [readItems, readChain_close hclose]
  rfl

theorem separated_cons (ts us : List Lexeme) (tss : List (List Lexeme)) (rest : List Lexeme) :
    separated (ts :: us :: tss) ++ rest =
      ts ++ .mark .comma :: (separated (us :: tss) ++ rest) := by
  simp [separated]

/-- Expressions with commas between them, up to the mark that ends the list. -/
theorem yields_separated {close : Mark} (hclose : close ∈ closers) (hcomma : close ≠ .comma)
    {tss : List (List Lexeme)} {es : List Tree} (h : List.Forall₂ (Groups tiers) tss es)
    (hne : es ≠ []) (rest : List Lexeme) :
    Yields (readItems close (separated tss ++ .mark close :: rest)) es rest := by
  induction h with
  | nil => exact absurd rfl hne
  | cons ht hmore ih =>
    cases hmore with
    | nil => exact yields_last hcomma (reads_of_groups ht (closes_mark hclose tiers rest))
    | cons hu hmore =>
      have hread rest := reads_of_groups ht (closes_mark (m := .comma) (by decide) tiers rest)
      have hitems := yields_item (hread _) (ih (by simp))
      rwa [separated_cons]

theorem yields_bracketed {close : Mark} (hclose : close ∈ closers) (hcomma : close ≠ .comma)
    {tss : List (List Lexeme)} {es : List Tree} (h : List.Forall₂ (Groups tiers) tss es)
    (rest : List Lexeme) :
    Yields (readList close (separated tss ++ .mark close :: rest)) es rest := by
  by_cases hne : es = []
  · subst hne
    cases h
    exact yields_list_nil close rest
  · have hitems := yields_separated hclose hcomma h hne rest
    refine yields_list ?_ hitems
    -- a list that starts with the closing mark would have no first item
    intro more heq
    rw [heq] at hitems
    obtain ⟨h, hitems⟩ := hitems
    rw [readItems_close hclose] at hitems
    cases hitems

/-! ## Plain values -/

theorem groups_double (d : Double) : Groups [] d.lexemes d.tree := by
  cases d with
  | nan => exact groups_name (by decide)
  | infinity negative => cases negative <;> exact groups_signed _ (groups_name (by decide))
  | finite negative m e =>
    simp only [Double.tree, Double.read_documented]
    exact groups_signed negative (groups_number _)

mutual

theorem groups_json (v : Json) : Groups [] v.lexemes v.tree := by
  match v with
  | .null => exact groups_name (by decide)
  | .bool true => exact groups_name (by decide)
  | .bool false => exact groups_name (by decide)
  | .int n => exact groups_signed _ (groups_number _)
  | .double d => exact groups_double d
  | .str t => exact groups_string t.units
  | .arr items =>
    refine groups_primary (t := .mark .openBracket) ⟨nofun, nofun⟩ fun rest => yields_array ?_
    rw [List.append_assoc]
    exact yields_bracketed (by decide) (by decide) (groups_jsonItems items) rest
  | .obj fields =>
    refine groups_primary (t := .mark .openBrace) ⟨nofun, nofun⟩ fun rest => yields_object ?_
    rw [List.append_assoc]
    cases fields with
    | nil => exact yields_fields_nil rest
    | cons field more => exact yields_fields (groups_jsonFields (field :: more) rest (by simp))

theorem groups_jsonItems (items : List Json) :
    List.Forall₂ (Groups tiers) (Json.lexemeItems items) (Json.treeItems items) := by
  match items with
  | [] => exact .nil
  | v :: rest =>
    exact .cons (groups_of_suffix (groups_json v) List.nil_suffix) (groups_jsonItems rest)

theorem groups_jsonFields (fields : List (Text × Json)) (rest : List Lexeme) (hne : fields ≠ []) :
    Yields (readEntries (separated (Json.lexemeFields fields) ++ .mark .closeBrace :: rest))
      (Json.treeFields fields) rest := by
  match fields with
  | [(k, v)] =>
    have hv := groups_of_suffix (groups_json v) (List.nil_suffix (l := tiers))
    exact yields_last_entry (reads_of_groups hv (closes_mark (by decide) tiers rest))
  | (k, v) :: (k', v') :: more =>
    have hv := groups_of_suffix (groups_json v) (List.nil_suffix (l := tiers))
    have hread rest := reads_of_groups hv (closes_mark (m := .comma) (by decide) tiers rest)
    have hmore := groups_jsonFields ((k', v') :: more) rest (by simp)
    have hall := yields_entry (k := k.units) (hread _) hmore
    rwa [Json.lexemeFields, Json.lexemeFields, separated_cons]

end

end Tree

/-! ## Places -/

namespace Operator

/-- The tiers from the operator's own one on. -/
def within (op : Operator) : List Tier := tiers.dropWhile (· ≠ op.tier)

theorem within_eq (op : Operator) :
    op.within = op.tier :: op.within.tail ∧ op.tier ∉ op.within.tail := by
  cases op <;> decide

theorem within_suffix (op : Operator) : op.within <:+ tiers := List.dropWhile_suffix _

/-- An operator that needs no parentheses on the left of `op` is not looser. -/
theorem within_left {op inner : Operator} (h : op.leftPlace ≤ inner.rank.level) :
    inner.within <:+ op.within := by
  revert h
  cases op <;> cases inner <;> decide

/-- An operator that needs no parentheses on the right of `op` is tighter. -/
theorem within_right {op inner : Operator} (h : op.rightPlace ≤ inner.rank.level) :
    inner.within <:+ op.within.tail := by
  revert h
  cases op <;> cases inner <;> decide

theorem level_lt_unary (op : Operator) : op.rank.level < Rank.unary.level := by
  cases op <;> decide

end Operator

/-! ## Expressions -/

namespace Expr

open BlockScript.Tree

/-- The tiers of the operators that are outside of all brackets. -/
def within : Expr → List Tier
  | .binary op _ _ => op.within
  | _ => []

theorem within_suffix (e : Expr) : e.within <:+ tiers := by
  cases e with
  | binary op left right => exact op.within_suffix
  | _ => exact List.nil_suffix

theorem fitLexemes_cases (e : Expr) (ts : List Lexeme) (place : Int) :
    e.fitLexemes ts place = .mark .openParen :: (ts ++ [.mark .closeParen]) ∨
      e.fitLexemes ts place = ts ∧ ∀ r, e.rank? = some r → place ≤ r.level := by
  unfold fitLexemes
  split
  · rename_i r hr
    split
    · exact .inl rfl
    · exact .inr ⟨rfl, fun r' hr' => by cases hr.symm.trans hr'; omega⟩
  · rename_i hr
    exact .inr ⟨rfl, fun r' hr' => by cases hr.symm.trans hr'⟩

/-- At its place an expression is an operand among all tiers whose operators the place takes. -/
theorem groups_fit {e : Expr} (h : Groups e.within e.bodyLexemes e.tree) {place : Int}
    {within : List Tier} (hplace : ∀ op : Operator, place ≤ op.rank.level → op.within <:+ within) :
    Groups within (e.fitLexemes e.bodyLexemes place) e.tree := by
  rcases e.fitLexemes_cases e.bodyLexemes place with hparen | ⟨hbare, hrank⟩
  · rw [hparen]
    exact groups_of_suffix (groups_paren (groups_of_suffix h e.within_suffix)) List.nil_suffix
  · rw [hbare]
    apply groups_of_suffix h
    cases e with
    | binary op left right => exact hplace op (hrank op.rank rfl)
    | _ => exact List.nil_suffix

mutual

/-- What an expression's lexemes are read as. -/
theorem groups_body {e : Expr} (h : e.WellFormed) : Groups e.within e.bodyLexemes e.tree := by
  match e with
  | .numeral n => exact groups_signed n.negative (groups_number n.magnitude)
  | .plain t => exact groups_string t.units
  | .data v => exact groups_json v
  | .zero => exact groups_number _
  | .text t => exact groups_string t.units
  | .name w => exact groups_name h.2
  | .member e field =>
    exact fun rest hr => suffixed_body (e := .member e field) h rfl (yields_end hr)
  | .call callee arguments =>
    exact fun rest hr => suffixed_body (e := .call callee arguments) h rfl (yields_end hr)
  | .not e =>
    have h : e.WellFormed := h
    have hoperand : Groups [] (e.fitLexemes e.bodyLexemes Rank.unary.level) e.tree :=
      groups_fit (groups_body h) fun op hop => absurd op.level_lt_unary (by omega)
    exact fun rest hr => yields_not (hoperand rest hr)
  | .await e =>
    have h : e.WellFormed := h
    have hoperand : Groups [] (e.fitLexemes e.bodyLexemes Rank.unary.level) e.tree :=
      groups_fit (groups_body h) fun op hop => absurd op.level_lt_unary (by omega)
    exact fun rest hr => yields_await (hoperand rest hr)
  | .binary op left right =>
    have hleft : Groups op.within _ left.tree :=
      groups_fit (groups_body h.1) fun _ => op.within_left
    have hright : Groups op.within.tail _ right.tree :=
      groups_fit (groups_body h.2) fun _ => op.within_right
    rw [op.within_eq.1] at hleft
    have hall := groups_binary op.within_eq.2 hleft hright
    rwa [← op.within_eq.1] at hall

/-- Members and calls that follow a name, a member or a call go on with it. -/
theorem suffixed_body {e : Expr} (h : e.WellFormed) (hcallee : e.isCallee = true)
    {rest rest' : List Lexeme} {e' : Tree} (hs : Yields (readSuffixes e.tree rest) e' rest') :
    Yields (readUnary (e.bodyLexemes ++ rest)) e' rest' := by
  match e with
  | .name w => exact yields_operand (t := .word w) h.2 (yields_call (yields_name h.2 rest) hs)
  | .member e field =>
    obtain ⟨hinner, he, -⟩ := h
    rw [bodyLexemes, fitLexemes_of_isCallee hinner, List.append_assoc]
    exact suffixed_body he hinner (yields_member hs)
  | .call callee arguments =>
    obtain ⟨hinner, he, harguments⟩ := h
    have hlist := yields_bracketed (by decide : .closeParen ∈ closers) (by decide)
      (groups_bodies harguments) rest
    rw [bodyLexemes, fitLexemes_of_isCallee hinner, List.append_assoc, List.cons_append,
      List.append_assoc]
    exact suffixed_body he hinner (yields_arguments hlist hs)

theorem groups_bodies {es : List Expr} (h : AllWellFormed es) :
    List.Forall₂ (Groups tiers) (bodiesLexemes es) (trees es) := by
  match es with
  | [] => exact .nil
  | e :: es => exact .cons (groups_of_suffix (groups_body h.1) e.within_suffix) (groups_bodies h.2)

end

/-- A written expression is read as the tree that it was written for, whatever its place. -/
theorem read_render {e : Expr} (h : e.WellFormed) (place : Int) :
    Tree.read? (e.render place) = some e.tree := by
  have hgroups : Groups tiers (e.fitLexemes e.bodyLexemes place) e.tree :=
    groups_fit (groups_body h) fun op _ => op.within_suffix
  have hend : Closes tiers [] := ⟨nofun, fun _ _ => nofun⟩
  have hread := reads_of_groups hgroups hend
  rw [List.append_nil] at hread
  exact read_of_yields (lexemes_render h place) hread

end Expr

end BlockScript
