-- Documents, read back. What the reader makes of a text is canonical, and a
-- canonical value is read back as itself from its indented text.
import BlockScript.Json.Writer
import BlockScript.Proofs.NumberReading
import BlockScript.Proofs.Obstacles

namespace BlockScript

/-! ## Strings -/

/-- What reading a string gives if a glyph stands before it. -/
def withGlyph (g : Glyph) (r : Except JsonStop (Text × Text)) : Except JsonStop (Text × Text) :=
  r.map fun (t, rest) => (g :: t, rest)

theorem readStringFrom_simple (start : Text) {c : Char} {made : Glyph}
    (h : simpleEscape? (.char c) = some made) (more : Text) :
    readStringFrom start 0 (.char '\\' :: .char c :: more)
      = withGlyph made (readStringFrom start 0 more) := by
  have hc : c ≠ 'u' := by
    rintro rfl
    cases h
  have hpiece : StringPiece.of start (.char '\\') (.char c :: more) = .glyph made 1 := by
    unfold StringPiece.of
    rw [if_neg (by decide), if_pos rfl]
    simp [hc, h]
  rw [readStringFrom, hpiece]
  rfl

theorem numberEscape_hex {n : Nat} (h : n < 0x20) {more : Text} (hmore : more ≠ []) :
    numberEscape (Text.hex 4 n ++ more) = .glyph (Glyph.ofCode n) 5 := by
  obtain ⟨e, more, rfl⟩ := List.exists_cons_of_ne_nil hmore
  obtain ⟨a, b, c, d, hhex, hquad⟩ := hexQuad_hex (Nat.lt_trans h (by decide)) (e :: more)
  have hhigh : isHighHalf n = false := by
    unfold isHighHalf
    simp
    omega
  rw [hhex, numberEscape]
  simp only [hquad, hhigh]
  split <;> rfl

theorem readStringFrom_number (start : Text) {n : Nat} (h : n < 0x20) {more : Text}
    (hmore : more ≠ []) :
    readStringFrom start 0 ("\\u" ++ Text.hex 4 n ++ more)
      = withGlyph (Glyph.ofCode n) (readStringFrom start 0 more) := by
  obtain ⟨a, b, c, d, hhex, -⟩ := hexQuad_hex (Nat.lt_trans h (by decide)) more
  have htext : ("\\u" ++ Text.hex 4 n ++ more : Text)
      = .char '\\' :: .char 'u' :: (Text.hex 4 n ++ more) := by
    rw [List.append_assoc]
    rfl
  have hpiece : StringPiece.of start (.char '\\') (.char 'u' :: (Text.hex 4 n ++ more))
      = .glyph (Glyph.ofCode n) 5 := numberEscape_hex h hmore
  rw [htext, readStringFrom, hpiece, hhex]
  rfl

/-- A glyph is read back from the escape that it is written as. -/
theorem readStringFrom_escape (start : Text) {g : Glyph} {e : Text} (h : g.escape? = some e)
    {more : Text} (hmore : more ≠ []) :
    readStringFrom start 0 (e ++ more) = withGlyph g (readStringFrom start 0 more) := by
  unfold Glyph.escape? at h
  split at h
  · rename_i hg
    subst hg
    cases h
    exact readStringFrom_simple start rfl more
  split at h
  · rename_i hg
    subst hg
    cases h
    exact readStringFrom_simple start rfl more
  split at h
  · rename_i hg
    subst hg
    cases h
    exact readStringFrom_simple start rfl more
  split at h
  · rename_i hg
    subst hg
    cases h
    exact readStringFrom_simple start rfl more
  split at h
  · rename_i hg
    subst hg
    cases h
    exact readStringFrom_simple start rfl more
  split at h
  · rename_i hg
    obtain rfl := eq_char_of_code (c := '\x08') hg (by decide)
    cases h
    exact readStringFrom_simple start rfl more
  split at h
  · rename_i hg
    obtain rfl := eq_char_of_code (c := '\x0c') hg (by decide)
    cases h
    exact readStringFrom_simple start rfl more
  split at h
  · rename_i hcode
    cases h
    rw [readStringFrom_number start hcode hmore, ofCode_code]
  · cases h

/-- A glyph without an escape stands for itself. -/
theorem readStringFrom_plain (start : Text) {g : Glyph} (h : g.escape? = none) (more : Text) :
    readStringFrom start 0 (g :: more) = withGlyph g (readStringFrom start 0 more) := by
  obtain ⟨hquote, hslash, hcode⟩ : g ≠ .char '"' ∧ g ≠ .char '\\' ∧ ¬ g.code < 0x20 := by
    grind [Glyph.escape?]
  have hpiece : StringPiece.of start g more = .glyph g 0 := by
    unfold StringPiece.of
    rw [if_neg hquote, if_neg hslash, if_neg hcode]
  rw [readStringFrom, hpiece]
  rfl

theorem readStringFrom_flatMap (start t rest : Text) :
    readStringFrom start 0 (t.flatMap Glyph.quoted ++ .char '"' :: rest) = .ok (t, rest) := by
  induction t with
  | nil => rfl
  | cons g t ih =>
    rw [List.flatMap_cons, List.append_assoc, Glyph.quoted]
    cases he : g.escape? with
    | none =>
      rw [Option.getD_none, List.singleton_append, readStringFrom_plain start he, ih]
      rfl
    | some e =>
      rw [Option.getD_some, readStringFrom_escape start he (by simp), ih]
      rfl

/-- A quoted string is read back. -/
theorem readString_quoted (t rest : Text) : readString (t.quoted ++ rest) = .ok (t, rest) := by
  have hquoted : t.quoted ++ rest
      = .char '"' :: (t.flatMap Glyph.quoted ++ .char '"' :: rest) := by
    simp [Text.quoted, Text.ofString]
  rw [hquoted]
  exact readStringFrom_flatMap _ t rest

/-! ## The indented text -/

mutual

/-- The indented text of a value. -/
def Json.text (depth : Nat) : Json → Text
  | .arr [] => "[]"
  | .arr (v :: rest) =>
    "[" ++ newLine (depth + 1) ++ (v.text (depth + 1) ++ Json.itemsTail depth rest)
  | .obj [] => "\x7b\x7d"
  | .obj ((k, v) :: rest) =>
    "\x7b" ++ newLine (depth + 1) ++ (k.quoted ++ ": " ++ v.text (depth + 1)
      ++ Json.fieldsTail depth rest)
  | v => v.scalar?.getD []

/-- What follows an item of a list: the items after it, and the closing bracket. -/
def Json.itemsTail (depth : Nat) : List Json → Text
  | [] => newLine depth ++ "]"
  | v :: rest => "," ++ newLine (depth + 1) ++ (v.text (depth + 1) ++ Json.itemsTail depth rest)

/-- What follows a field of an object: the fields after it, and the closing brace. -/
def Json.fieldsTail (depth : Nat) : List (Text × Json) → Text
  | [] => newLine depth ++ "\x7d"
  | (k, v) :: rest =>
    "," ++ newLine (depth + 1) ++ (k.quoted ++ ": " ++ v.text (depth + 1)
      ++ Json.fieldsTail depth rest)

end

theorem text_of_scalar {v : Json} {t : Text} (h : v.scalar? = some t) (depth : Nat) :
    v.text depth = t := by
  cases v with
  | arr items => cases h
  | obj fields => cases h
  | _ => simp [Json.text, h]

theorem flatten_scalar {v : Json} {t : Text} (h : v.scalar? = some t) (depth : Nat) :
    (v.pieces depth).flatten = v.text depth := by
  rw [text_of_scalar h]
  cases v with
  | arr items => cases h
  | obj fields => cases h
  | _ => simp [Json.pieces, h]

/-- An item and what stands before it, whether they go out in one piece or not. -/
theorem flatten_itemPieces_cons {depth : Nat} {v : Json}
    (hv : (v.pieces depth).flatten = v.text depth) (before : Text) (rest : List Json) :
    (Json.itemPieces depth before (v :: rest)).flatten
      = before ++ (v.text depth
        ++ (Json.itemPieces depth ("," ++ newLine depth) rest).flatten) := by
  rw [Json.itemPieces, List.flatten_append]
  cases hscalar : v.scalar? with
  | none => simp [hv]
  | some t => simp [text_of_scalar hscalar]

mutual

/-- The pieces of a value make up its text. -/
theorem flatten_pieces (depth : Nat) : (v : Json) → (v.pieces depth).flatten = v.text depth
  | .arr [] => rfl
  | .arr (v :: rest) => by
    rw [Json.pieces, if_neg (by simp), List.flatten_append,
      flatten_itemPieces_cons (flatten_pieces (depth + 1) v), Json.text,
      ← flatten_itemPieces depth rest]
    simp
  | .obj [] => rfl
  | .obj ((k, v) :: rest) => by
    rw [Json.pieces, if_neg (by simp), List.flatten_cons, List.flatten_cons, List.flatten_append,
      Json.fieldPieces, Json.text, ← flatten_fieldPieces depth rest]
    simp [flatten_pieces (depth + 1) v]
  | .null => flatten_scalar rfl depth
  | .bool true => flatten_scalar rfl depth
  | .bool false => flatten_scalar rfl depth
  | .int n => flatten_scalar rfl depth
  | .double d => flatten_scalar rfl depth
  | .str t => flatten_scalar rfl depth

theorem flatten_itemPieces (depth : Nat) : (items : List Json) →
    (Json.itemPieces (depth + 1) ("," ++ newLine (depth + 1)) items).flatten
      ++ (newLine depth ++ "]") = Json.itemsTail depth items
  | [] => rfl
  | v :: rest => by
    rw [flatten_itemPieces_cons (flatten_pieces (depth + 1) v), Json.itemsTail,
      ← flatten_itemPieces depth rest]
    simp

theorem flatten_fieldPieces (depth : Nat) : (fields : List (Text × Json)) →
    (if fields.isEmpty then []
      else ("," ++ newLine (depth + 1)) :: Json.fieldPieces (depth + 1) fields).flatten
      ++ (newLine depth ++ "\x7d") = Json.fieldsTail depth fields
  | [] => rfl
  | (k, v) :: rest => by
    rw [if_neg (by simp), List.flatten_cons, Json.fieldPieces, Json.fieldsTail,
      ← flatten_fieldPieces depth rest]
    simp [flatten_pieces (depth + 1) v]

end

theorem indented_eq (v : Json) : v.indented = v.text 0 := flatten_pieces 0 v

/-! ## Blanks and starts -/

/-- A character that a value starts with. -/
def isValueStart (c : Char) : Bool :=
  c.isAlphanum || c == '-' || c == '"' || c == '[' || c == '\x7b'

theorem skipBlanks_newLine (depth : Nat) (t : Text) :
    skipBlanks (newLine depth ++ t) = skipBlanks t := by
  apply List.dropWhile_append_of_pos
  intro g hg
  rcases List.mem_cons.mp hg with rfl | hg
  · rfl
  · rw [List.eq_of_mem_replicate hg]
    rfl

theorem skipBlanks_of_start {t : Text} (h : Text.opens isValueStart t = true) :
    skipBlanks t = t := by
  match t with
  | .char c :: rest =>
    have hc : isValueStart c = true := h
    have hblank : isJsonBlank (.char c) = false := by
      unfold isJsonBlank
      simp only [Glyph.char.injEq, Bool.or_eq_false_iff, decide_eq_false_iff_not]
      refine ⟨⟨⟨?_, ?_⟩, ?_⟩, ?_⟩ <;> exact ne_of_class hc (by decide)
    simp [skipBlanks, hblank]

theorem readValue_number (fuel : Nat) (negative : Bool) {c : Char} (hc : c.isDigit = true)
    (more : Text) :
    readValue (fuel + 1) (signText negative ++ .char c :: more)
      = readNumber (signText negative ++ .char c :: more) := by
  have hne : ∀ d, d.isDigit = false → d ≠ c := fun d hd => (ne_of_class hc hd).symm
  have hword : readWord? (signText negative ++ .char c :: more) words = none := by
    cases negative with
    | true =>
      simp [signText, readWord?, words, Text.after?, Text.ofString, hne 'I' (by decide)]
    | false =>
      simp [signText, readWord?, words, Text.after?, Text.ofString, hne 'n' (by decide),
        hne 't' (by decide), hne 'f' (by decide), hne 'N' (by decide), hne 'I' (by decide),
        hne '-' (by decide)]
  have hopens : ∀ d rest, d.isDigit = false → d ≠ '-' →
      signText negative ++ .char c :: more ≠ .char d :: rest := by
    intro d rest hd hminus heq
    cases negative with
    | true => exact hminus (Glyph.char.inj (List.cons.inj heq).1).symm
    | false => exact hne d hd (Glyph.char.inj (List.cons.inj heq).1).symm
  rw [readValue, hword]
  · exact fun rest => hopens '"' rest (by decide) (by decide)
  · exact fun rest => hopens '\x7b' rest (by decide) (by decide)
  · exact fun rest => hopens '[' rest (by decide) (by decide)

/-! ## Canonical values -/

mutual

/-- Values as the reader makes them: whole numbers are not too long, doubles are of the format, and
no object has a key twice. -/
def Json.IsCanonical : Json → Prop
  | .int n => (Nat.toDigits 10 n.natAbs).length ≤ Text.digitLimit
  | .double d => d.IsCanonical
  | .arr items => Json.AllCanonical items
  | .obj fields => (fields.map Prod.fst).Nodup ∧ Json.FieldsCanonical fields
  | .null | .bool _ | .str _ => True

def Json.AllCanonical : List Json → Prop
  | [] => True
  | v :: rest => v.IsCanonical ∧ Json.AllCanonical rest

def Json.FieldsCanonical : List (Text × Json) → Prop
  | [] => True
  | (_, v) :: rest => v.IsCanonical ∧ Json.FieldsCanonical rest

end

/-! ## Reading back -/

theorem setField_of_fresh {key : Text} {fields : List (Text × Json)}
    (h : key ∉ fields.map Prod.fst) (v : Json) :
    setField key v fields = fields ++ [(key, v)] := by
  induction fields with
  | nil => rfl
  | cons f rest ih =>
    obtain ⟨k, w⟩ := f
    rw [List.map_cons, List.mem_cons, not_or] at h
    rw [setField, if_neg (Ne.symm h.1), ih h.2]
    rfl

theorem documented_start (d : Double) :
    ∃ c cs, d.documented = .char c :: cs ∧ isValueStart c = true := by
  cases d with
  | nan => exact ⟨'N', _, rfl, by decide⟩
  | infinity negative =>
    cases negative with
    | true => exact ⟨'-', _, rfl, by decide⟩
    | false => exact ⟨'I', _, rfl, by decide⟩
  | finite negative m e =>
    rw [Double.documented_finite]
    cases negative with
    | true => exact ⟨'-', _, rfl, by decide⟩
    | false =>
      obtain ⟨c, cs, hc, hdigit⟩ := Double.magnitude_start
        (if m = 0 then { digits := 0, point := 1 } else Double.shortest m e)
      refine ⟨c, Text.ofChars cs, ?_, by simp [isValueStart, Char.isAlphanum, hdigit]⟩
      rw [Double.finiteMagnitude, hc]
      rfl

/-- The text of a value starts like a value. -/
theorem opens_text (depth : Nat) (v : Json) (rest : Text) :
    Text.opens isValueStart (v.text depth ++ rest) = true := by
  cases v with
  | null => rfl
  | bool b => cases b <;> rfl
  | int n =>
    obtain ⟨c, cs, hc⟩ := List.exists_cons_of_ne_nil (Nat.toDigits_ne_nil (b := 10) (n := n.natAbs))
    have hdigit : c.isDigit = true := isDigit_toDigits c (by rw [hc]; simp)
    change Text.opens isValueStart (Text.ofInt n ++ rest) = true
    rw [ofInt_eq, hc]
    cases decide (n < 0) with
    | true => rfl
    | false =>
      change isValueStart c = true
      simp [isValueStart, Char.isAlphanum, hdigit]
  | double d =>
    obtain ⟨c, cs, hc, hstart⟩ := documented_start d
    change Text.opens isValueStart (d.documented ++ rest) = true
    rw [hc]
    exact hstart
  | str t => rfl
  | arr items => cases items <;> rfl
  | obj fields => cases fields <;> rfl

theorem readValue_double {d : Double} (h : d.IsCanonical) (fuel : Nat) {rest : Text}
    (hrest : EndsNumber rest) :
    readValue (fuel + 1) (d.documented ++ rest) = .ok (.double d, rest) := by
  cases d with
  | nan => rfl
  | infinity negative => cases negative <;> rfl
  | finite negative m e =>
    rw [← Double.readNumber_documented h hrest, Double.documented_finite, List.append_assoc]
    obtain ⟨c, cs, hc, hdigit⟩ := Double.magnitude_start
      (if m = 0 then { digits := 0, point := 1 } else Double.shortest m e)
    rw [Double.finiteMagnitude, hc]
    exact readValue_number fuel negative hdigit _

theorem readValue_int {n : Int} (h : (Json.int n).IsCanonical) (fuel : Nat) {rest : Text}
    (hrest : EndsNumber rest) :
    readValue (fuel + 1) (Text.ofInt n ++ rest) = .ok (.int n, rest) := by
  rw [← readNumber_ofInt h hrest, ofInt_eq, List.append_assoc]
  obtain ⟨c, cs, hc⟩ := List.exists_cons_of_ne_nil (Nat.toDigits_ne_nil (b := 10) (n := n.natAbs))
  have hdigit : c.isDigit = true := isDigit_toDigits c (by rw [hc]; simp)
  rw [hc]
  exact readValue_number fuel _ hdigit _

theorem endsNumber_itemsTail (depth : Nat) (items : List Json) (rest : Text) :
    EndsNumber (Json.itemsTail depth items ++ rest) := by
  cases items <;> rfl

theorem endsNumber_fieldsTail (depth : Nat) (fields : List (Text × Json)) (rest : Text) :
    EndsNumber (Json.fieldsTail depth fields ++ rest) := by
  cases fields <;> rfl

/-! ### Steps of the reader -/

section Steps

variable {fuel : Nat} {t rest more : Text} {v : Json}

theorem readItems_last (hv : readValue fuel t = .ok (v, rest))
    (hrest : skipBlanks rest = .char ']' :: more) :
    readItems (fuel + 1) t = .ok ([v], more) := by
  rw [readItems, hv]
  simp only [bind, Except.bind, hrest]
  rfl

theorem readItems_next (hv : readValue fuel t = .ok (v, rest))
    (hrest : skipBlanks rest = .char ',' :: more) {vs : List Json} {left : Text}
    (hvs : readItems fuel (skipBlanks more) = .ok (vs, left)) :
    readItems (fuel + 1) t = .ok (v :: vs, left) := by
  rw [readItems, hv]
  simp only [bind, Except.bind, hrest, hvs]
  rfl

/-- A field is read up to what follows its value. -/
theorem readFields_eq {k value : Text} (hstart : Text.opens isValueStart value = true)
    (hv : readValue fuel value = .ok (v, rest)) (done : List (Text × Json)) :
    (skipBlanks rest = .char '\x7d' :: more →
      readFields (fuel + 1) done (k.quoted ++ ": " ++ value) = .ok (setField k v done, more)) ∧
    (skipBlanks rest = .char ',' :: more →
      readFields (fuel + 1) done (k.quoted ++ ": " ++ value)
        = readFields fuel (setField k v done) (skipBlanks more)) := by
  have hkey : readString (k.quoted ++ ": " ++ value) = .ok (k, ": " ++ value) := by
    rw [List.append_assoc]
    exact readString_quoted k _
  have hcolon : skipBlanks (": " ++ value) = .char ':' :: .char ' ' :: value := rfl
  have hvalue : skipBlanks (.char ' ' :: value) = value := skipBlanks_of_start hstart
  obtain ⟨tail, htail⟩ : ∃ tail, (k.quoted ++ ": " ++ value : Text) = .char '"' :: tail :=
    ⟨_, rfl⟩
  rw [htail] at hkey
  constructor
  · intro hrest
    rw [htail, readFields]
    simp only [hkey, bind, Except.bind, hcolon, pure, Except.pure, hvalue, hv, hrest]
  · intro hrest
    rw [htail, readFields]
    simp only [hkey, bind, Except.bind, hcolon, pure, Except.pure, hvalue, hv, hrest]

end Steps

theorem not_close_of_start {t : Text} (h : Text.opens isValueStart t = true) {c : Char}
    (hc : isValueStart c = false) (more : Text) : t ≠ .char c :: more := by
  rintro rfl
  exact absurd h (by simpa [Text.opens] using hc)

/-- The text of a list from its first item on. -/
def Json.itemsText (depth : Nat) : List Json → Text
  | [] => []
  | v :: rest => v.text (depth + 1) ++ Json.itemsTail depth rest

theorem opens_itemsText (depth : Nat) (v : Json) (items : List Json) (rest : Text) :
    Text.opens isValueStart (Json.itemsText depth (v :: items) ++ rest) = true := by
  rw [Json.itemsText, List.append_assoc]
  exact opens_text (depth + 1) v _

/-- The text of an object from its first key on. -/
def Json.fieldsText (depth : Nat) : List (Text × Json) → Text
  | [] => []
  | (k, v) :: rest => k.quoted ++ ": " ++ v.text (depth + 1) ++ Json.fieldsTail depth rest

mutual

/-- A canonical value is read back from its text, with fuel above twice its length. -/
theorem readValue_text : (v : Json) → v.IsCanonical → ∀ (depth fuel : Nat) (rest : Text),
    EndsNumber rest → 2 * (v.text depth).length < fuel →
    readValue fuel (v.text depth ++ rest) = .ok (v, rest)
  | v, h, depth, 0, rest, hrest, hfuel => by omega
  | .null, h, depth, fuel + 1, rest, hrest, hfuel => rfl
  | .bool true, h, depth, fuel + 1, rest, hrest, hfuel => rfl
  | .bool false, h, depth, fuel + 1, rest, hrest, hfuel => rfl
  | .int n, h, depth, fuel + 1, rest, hrest, hfuel => readValue_int h fuel hrest
  | .double d, h, depth, fuel + 1, rest, hrest, hfuel => readValue_double h fuel hrest
  | .str t, h, depth, fuel + 1, rest, hrest, hfuel => by
    have hread := readString_quoted t rest
    change (readString (t.quoted ++ rest)).map (fun (s, more) => (Json.str s, more)) = _
    rw [hread]
    rfl
  | .arr [], h, depth, fuel + 1, rest, hrest, hfuel => rfl
  | .arr (v :: items), h, depth, fuel + 1, rest, hrest, hfuel => by
    have htext : (Json.arr (v :: items)).text depth
        = .char '[' :: (newLine (depth + 1) ++ Json.itemsText depth (v :: items)) := rfl
    have hitems := readItems_text (v :: items) (by simp) h depth fuel rest (by
      rw [htext] at hfuel
      simp only [List.length_cons, List.length_append, newLine] at hfuel
      omega)
    have hstart := opens_itemsText depth v items rest
    have hskip : skipBlanks (newLine (depth + 1) ++ Json.itemsText depth (v :: items) ++ rest)
        = Json.itemsText depth (v :: items) ++ rest := by
      rw [List.append_assoc, skipBlanks_newLine]
      exact skipBlanks_of_start hstart
    rw [htext, List.cons_append, readValue, hskip]
    split
    · exact absurd ‹_› (not_close_of_start hstart (by decide) _)
    · rw [hitems]
      rfl
  | .obj [], h, depth, fuel + 1, rest, hrest, hfuel => rfl
  | .obj ((k, v) :: fields), h, depth, fuel + 1, rest, hrest, hfuel => by
    have htext : (Json.obj ((k, v) :: fields)).text depth
        = .char '\x7b' :: (newLine (depth + 1) ++ Json.fieldsText depth ((k, v) :: fields)) := rfl
    have hfields := readFields_text ((k, v) :: fields) (by simp) h.2 [] h.1 depth fuel rest (by
      rw [htext] at hfuel
      simp only [List.length_cons, List.length_append, newLine] at hfuel
      omega)
    have hstart : Text.opens isValueStart (Json.fieldsText depth ((k, v) :: fields) ++ rest)
        = true := rfl
    have hskip : skipBlanks (newLine (depth + 1) ++ Json.fieldsText depth ((k, v) :: fields)
        ++ rest) = Json.fieldsText depth ((k, v) :: fields) ++ rest := by
      rw [List.append_assoc, skipBlanks_newLine]
      exact skipBlanks_of_start hstart
    rw [htext, List.cons_append, readValue, hskip]
    split
    · exact absurd ‹_› (not_close_of_start hstart (by decide) _)
    · rw [hfields]
      rfl

theorem readItems_text : (items : List Json) → items ≠ [] → Json.AllCanonical items →
    ∀ (depth fuel : Nat) (rest : Text), 2 * (Json.itemsText depth items).length < fuel →
    readItems fuel (Json.itemsText depth items ++ rest) = .ok (items, rest)
  | [], hne, _, _, _, _, _ => absurd rfl hne
  | v :: items, _, h, depth, 0, rest, hfuel => by omega
  | v :: items, _, h, depth, fuel + 1, rest, hfuel => by
    simp only [Json.itemsText, List.length_append] at hfuel
    have hv := readValue_text v h.1 (depth + 1) fuel (Json.itemsTail depth items ++ rest)
      (endsNumber_itemsTail depth items rest)
    rw [Json.itemsText, List.append_assoc]
    cases items with
    | nil =>
      simp only [Json.itemsTail, List.length_append, newLine, List.length_cons] at hfuel
      refine readItems_last (hv (by omega)) ?_
      rw [Json.itemsTail, List.append_assoc, skipBlanks_newLine]
      rfl
    | cons w items =>
      have htail : Json.itemsTail depth (w :: items)
          = .char ',' :: (newLine (depth + 1) ++ Json.itemsText depth (w :: items)) := rfl
      rw [htail] at hfuel
      simp only [List.length_append, newLine, List.length_cons] at hfuel
      have hnext := readItems_text (w :: items) (by simp) h.2 depth fuel rest (by omega)
      have hcomma : skipBlanks (Json.itemsTail depth (w :: items) ++ rest)
          = .char ',' :: (newLine (depth + 1) ++ (Json.itemsText depth (w :: items) ++ rest)) := by
        rw [htail, List.cons_append, List.append_assoc]
        rfl
      refine readItems_next (hv (by omega)) hcomma ?_
      rw [skipBlanks_newLine, skipBlanks_of_start (opens_itemsText depth w items rest)]
      exact hnext

theorem readFields_text : (fields : List (Text × Json)) → fields ≠ [] →
    Json.FieldsCanonical fields → ∀ (done : List (Text × Json)),
    ((done ++ fields).map Prod.fst).Nodup → ∀ (depth fuel : Nat) (rest : Text),
    2 * (Json.fieldsText depth fields).length < fuel →
    readFields fuel done (Json.fieldsText depth fields ++ rest) = .ok (done ++ fields, rest)
  | [], hne, _, _, _, _, _, _, _ => absurd rfl hne
  | (k, v) :: fields, _, h, done, hnodup, depth, 0, rest, hfuel => by omega
  | (k, v) :: fields, _, h, done, hnodup, depth, fuel + 1, rest, hfuel => by
    simp only [Json.fieldsText, List.length_append] at hfuel
    have hfresh : k ∉ done.map Prod.fst := by
      rw [List.map_append, List.map_cons, List.nodup_append] at hnodup
      exact fun hmem => hnodup.2.2 k hmem k List.mem_cons_self rfl
    have hset := setField_of_fresh hfresh v
    have hv := readValue_text v h.1 (depth + 1) fuel (Json.fieldsTail depth fields ++ rest)
      (endsNumber_fieldsTail depth fields rest)
    have hstart := opens_text (depth + 1) v (Json.fieldsTail depth fields ++ rest)
    rw [Json.fieldsText, List.append_assoc, List.append_assoc]
    cases fields with
    | nil =>
      simp only [Json.fieldsTail, List.length_append, newLine, List.length_cons] at hfuel
      have hclose : skipBlanks (Json.fieldsTail depth [] ++ rest) = .char '\x7d' :: rest := by
        rw [Json.fieldsTail, List.append_assoc, skipBlanks_newLine]
        rfl
      rw [(readFields_eq (k := k) hstart (hv (by omega)) done).1 hclose, hset]
    | cons f fields =>
      have htail : Json.fieldsTail depth (f :: fields)
          = .char ',' :: (newLine (depth + 1) ++ Json.fieldsText depth (f :: fields)) := rfl
      rw [htail] at hfuel
      simp only [List.length_append, newLine, List.length_cons] at hfuel
      have hnext := readFields_text (f :: fields) (by simp) h.2 (done ++ [(k, v)])
        (by simpa using hnodup) depth fuel rest (by omega)
      have hcomma : skipBlanks (Json.fieldsTail depth (f :: fields) ++ rest)
          = .char ',' :: (newLine (depth + 1)
            ++ (Json.fieldsText depth (f :: fields) ++ rest)) := by
        rw [htail, List.cons_append, List.append_assoc]
        rfl
      rw [(readFields_eq (k := k) hstart (hv (by omega)) done).2 hcomma, hset, skipBlanks_newLine,
        skipBlanks_of_start rfl, hnext]
      simp

end

/-- No indented text starts with a byte order mark. -/
theorem head_indented_ne (v : Json) : v.indented.head? ≠ some (.char '\ufeff') := by
  have hstart := opens_text 0 v []
  rw [List.append_nil, ← indented_eq] at hstart
  intro hhead
  obtain ⟨rest, hrest⟩ := List.head?_eq_some_iff.mp hhead
  exact not_close_of_start hstart (by decide) rest hrest

/-- A canonical value is read back from its indented text. -/
theorem readDocument_indented {v : Json} (h : v.IsCanonical) :
    readDocument v.indented = .ok v := by
  have hread := readValue_text v h 0 (2 * v.indented.length + 1) [] rfl
  have hstart := opens_text 0 v []
  rw [List.append_nil, ← indented_eq] at hread hstart
  unfold readDocument
  rw [if_neg (head_indented_ne v), skipBlanks_of_start hstart]
  simp only [hread (by omega)]
  rfl

/-! ## What the reader makes -/

theorem natOfDigits_lt {ds : List Char} (h : ∀ c ∈ ds, c.isDigit = true) :
    Text.natOfDigits ds < 10 ^ ds.length := by
  induction ds using List.reverseRecOn with
  | nil => decide
  | append_singleton ds c ih =>
    have hc : c.isDigit = true := h c (by simp)
    have hvalue : Text.natOfDigits [c] ≤ 9 := by
      simp only [Char.isDigit, Bool.and_eq_true, decide_eq_true_eq] at hc
      have hnine : c.toNat ≤ 57 := hc.2
      change 10 * 0 + (c.toNat - 48) ≤ 9
      omega
    have ih := ih fun d hd => h d (by simp [hd])
    rw [natOfDigits_append, List.length_append, List.length_singleton, pow_succ 10 ds.length]
    omega

theorem isDigit_digitsOf (t : Text) : ∀ c ∈ digitsOf t, c.isDigit = true := by
  intro c hc
  obtain ⟨g, hg, hchar⟩ := List.mem_filterMap.mp hc
  have hdigit := List.mem_takeWhile_imp hg
  cases g with
  | char d =>
    cases hchar
    exact hdigit
  | half n => cases hchar

/-- A number that was read has no more digits than there were in the text. -/
theorem length_toDigits_natOfDigits {ds : List Char} (hne : ds ≠ [])
    (h : ∀ c ∈ ds, c.isDigit = true) :
    (Nat.toDigits 10 (Text.natOfDigits ds)).length ≤ ds.length :=
  (Nat.length_toDigits_le_iff (by decide) (List.length_pos_of_ne_nil hne)).mpr (natOfDigits_lt h)

theorem canonical_readNumber (t : Text) :
    GivesOnly (fun r => r.1.IsCanonical) (readNumber t) := by
  unfold readNumber
  split
  rename_i negative body _
  simp only
  generalize hds : (if (digitsOf body).head? = some '0' then ['0'] else digitsOf body) = ds
  have hdigits : ∀ c ∈ ds, c.isDigit = true := by
    rw [← hds]
    split
    · exact List.forall_mem_singleton.mpr (by decide)
    · exact isDigit_digitsOf body
  by_cases hempty : ds.isEmpty = true
  · rw [if_pos hempty]
    exact givesOnly_error _
  · rw [if_neg hempty]
    split
    · split
      · exact givesOnly_error _
      · rename_i hlimit
        refine givesOnly_ok ?_
        have hlength := length_toDigits_natOfDigits (by simpa using hempty) hdigits
        have habs : (if negative then -(Text.natOfDigits ds : Int) else Text.natOfDigits ds).natAbs
            = Text.natOfDigits ds := by
          split <;> omega
        change (Nat.toDigits 10 (if negative then -(Text.natOfDigits ds : Int)
          else Text.natOfDigits ds).natAbs).length ≤ Text.digitLimit
        rw [habs]
        omega
    · exact givesOnly_ok (Double.isCanonical_ofDecimal _ _ _)

theorem canonical_readWord {t rest : Text} {v : Json} (h : readWord? t words = some (v, rest)) :
    v.IsCanonical := by
  have hwords : ∀ w ∈ words, w.2.IsCanonical := by
    simp [words, Json.IsCanonical, Double.IsCanonical]
  revert h
  generalize words = ws at hwords
  intro h
  induction ws with
  | nil => cases h
  | cons w ws ih =>
    obtain ⟨word, made⟩ := w
    obtain ⟨hmade, hws⟩ := List.forall_mem_cons.mp hwords
    unfold readWord? at h
    split at h
    · cases h
      exact hmade
    · exact ih hws h

theorem keys_setField (key : Text) (v : Json) (fields : List (Text × Json)) :
    (setField key v fields).map Prod.fst
      = if key ∈ fields.map Prod.fst then fields.map Prod.fst
        else fields.map Prod.fst ++ [key] := by
  induction fields with
  | nil => rfl
  | cons f rest ih =>
    obtain ⟨k, w⟩ := f
    rw [setField]
    by_cases hk : k = key
    · simp [hk]
    · rw [if_neg hk, List.map_cons, ih]
      simp only [List.map_cons, List.mem_cons, Ne.symm hk, false_or]
      split <;> rfl

/-- Setting a field keeps an object canonical. -/
theorem canonical_setField (key : Text) {v : Json} (hv : v.IsCanonical)
    {fields : List (Text × Json)} (h : (Json.obj fields).IsCanonical) :
    (Json.obj (setField key v fields)).IsCanonical := by
  obtain ⟨hnodup, hfields⟩ := h
  constructor
  · rw [keys_setField]
    split
    · exact hnodup
    · rename_i hkey
      exact List.nodup_append.mpr ⟨hnodup, by simp, by
        intro k hk k' hk' heq
        rw [List.mem_singleton.mp hk'] at heq
        exact hkey (heq ▸ hk)⟩
  · clear hnodup
    induction fields with
    | nil => exact ⟨hv, trivial⟩
    | cons f rest ih =>
      obtain ⟨k, w⟩ := f
      rw [setField]
      split
      · exact ⟨hv, hfields.2⟩
      · exact ⟨hfields.1, ih hfields.2⟩

/-- The readers of values, items and fields give canonical ones. The induction is on the fuel that
the three share. -/
theorem canonical_readers (fuel : Nat) :
    (∀ t, GivesOnly (fun r => r.1.IsCanonical) (readValue fuel t)) ∧
    (∀ t, GivesOnly (fun r => Json.AllCanonical r.1) (readItems fuel t)) ∧
    (∀ done t, (Json.obj done).IsCanonical →
      GivesOnly (fun r => (Json.obj r.1).IsCanonical) (readFields fuel done t)) := by
  induction fuel with
  | zero => exact ⟨fun _ => givesOnly_error _, fun _ => givesOnly_error _,
      fun _ _ _ => givesOnly_error _⟩
  | succ fuel ih =>
    obtain ⟨hvalue, hitems, hfields⟩ := ih
    refine ⟨fun t => ?_, fun t => ?_, fun done t hdone => ?_⟩
    · unfold readValue
      split
      · exact givesOnly_map (P := fun _ => True) (fun _ _ => trivial) (fun _ _ => trivial)
      · split
        · exact givesOnly_ok ⟨List.nodup_nil, trivial⟩
        · exact givesOnly_map (hfields [] _ ⟨List.nodup_nil, trivial⟩) (fun _ h => h)
      · split
        · exact givesOnly_ok trivial
        · exact givesOnly_map (hitems _) (fun _ h => h)
      · split
        · rename_i hword
          exact givesOnly_ok (canonical_readWord hword)
        · exact canonical_readNumber t
    · unfold readItems
      refine givesOnly_bind (hvalue t) fun r hr => ?_
      obtain ⟨v, rest⟩ := r
      dsimp only
      split
      · exact givesOnly_ok ⟨hr, trivial⟩
      · refine givesOnly_bind (hitems _) fun more hmore => ?_
        exact givesOnly_ok ⟨hr, hmore⟩
      · exact givesOnly_error _
    · unfold readFields
      dsimp only
      split
      · refine givesOnly_of_bind fun k _ => ?_
        obtain ⟨name, rest⟩ := k
        dsimp only
        split
        · refine givesOnly_of_bind fun value _ => ?_
          refine givesOnly_bind (hvalue value) fun r hr => ?_
          obtain ⟨v, rest⟩ := r
          have hset := canonical_setField name hr hdone
          dsimp only
          split
          · exact givesOnly_ok hset
          · exact hfields _ _ hset
          · exact givesOnly_error _
        · exact givesOnly_error _
      · exact givesOnly_error _

/-- What the reader makes of a document is canonical. -/
theorem canonical_of_readDocument {t : Text} {v : Json} (h : readDocument t = .ok v) :
    v.IsCanonical := by
  have hgives : GivesOnly Json.IsCanonical (readDocument t) := by
    unfold readDocument
    split
    · exact givesOnly_error _
    · refine givesOnly_bind ((canonical_readers _).1 _) fun r hr => ?_
      obtain ⟨made, rest⟩ := r
      dsimp only
      split
      · exact givesOnly_ok hr
      · exact givesOnly_error _
  exact hgives v h

end BlockScript
