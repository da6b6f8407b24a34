-- JSON values as scripts and manifests hold them. Whole numbers and doubles
-- are kept apart, objects keep their fields in the order in which they were
-- set, and text may hold lone halves.
import BlockScript.Text
import BlockScript.Double

namespace BlockScript

inductive Json where
  | null
  | bool (b : Bool)
  | int (n : Int)
  | double (d : Double)
  | str (t : Text)
  | arr (items : List Json)
  | obj (fields : List (Text × Json))
deriving Inhabited

-- the lists in a value keep this from being derived
mutual

def Json.decEq (v w : Json) : Decidable (v = w) :=
  match v, w with
  | .null, .null => isTrue rfl
  | .bool a, .bool b => decidable_of_iff (a = b) (by simp)
  | .int m, .int n => decidable_of_iff (m = n) (by simp)
  | .double d, .double e => decidable_of_iff (d = e) (by simp)
  | .str s, .str t => decidable_of_iff (s = t) (by simp)
  | .arr xs, .arr ys =>
    have := Json.decEqItems xs ys
    decidable_of_iff (xs = ys) (by simp)
  | .obj fs, .obj gs =>
    have := Json.decEqFields fs gs
    decidable_of_iff (fs = gs) (by simp)
  | .null, .bool _ | .null, .int _ | .null, .double _ | .null, .str _ | .null, .arr _
  | .null, .obj _ | .bool _, .null | .bool _, .int _ | .bool _, .double _ | .bool _, .str _
  | .bool _, .arr _ | .bool _, .obj _ | .int _, .null | .int _, .bool _ | .int _, .double _
  | .int _, .str _ | .int _, .arr _ | .int _, .obj _ | .double _, .null | .double _, .bool _
  | .double _, .int _ | .double _, .str _ | .double _, .arr _ | .double _, .obj _
  | .str _, .null | .str _, .bool _ | .str _, .int _ | .str _, .double _ | .str _, .arr _
  | .str _, .obj _ | .arr _, .null | .arr _, .bool _ | .arr _, .int _ | .arr _, .double _
  | .arr _, .str _ | .arr _, .obj _ | .obj _, .null | .obj _, .bool _ | .obj _, .int _
  | .obj _, .double _ | .obj _, .str _ | .obj _, .arr _ => isFalse (by intro h; cases h)

def Json.decEqItems (xs ys : List Json) : Decidable (xs = ys) :=
  match xs, ys with
  | [], [] => isTrue rfl
  | x :: xs, y :: ys =>
    have := Json.decEq x y
    have := Json.decEqItems xs ys
    decidable_of_iff (x = y ∧ xs = ys) (by simp)
  | [], _ :: _ | _ :: _, [] => isFalse (by intro h; cases h)

def Json.decEqFields (fs gs : List (Text × Json)) : Decidable (fs = gs) :=
  match fs, gs with
  | [], [] => isTrue rfl
  | (k, v) :: fs, (l, w) :: gs =>
    have := Json.decEq v w
    have := Json.decEqFields fs gs
    decidable_of_iff (k = l ∧ v = w ∧ fs = gs) (by simp [and_assoc])
  | [], _ :: _ | _ :: _, [] => isFalse (by intro h; cases h)

end

instance : DecidableEq Json := Json.decEq

/-! ## Fields -/

/-- The value of a key. -/
def field? (key : Text) : List (Text × Json) → Option Json
  | [] => none
  | (k, v) :: rest => if k = key then some v else field? key rest

/-- Sets a key: a key that is there keeps its place, a new one goes to the end. -/
def setField (key : Text) (value : Json) : List (Text × Json) → List (Text × Json)
  | [] => [(key, value)]
  | (k, v) :: rest => if k = key then (k, value) :: rest else (k, v) :: setField key value rest

namespace Json

/-- The value of a key of an object; nothing for any other value. -/
def get? (key : Text) : Json → Option Json
  | .obj fields => field? key fields
  | _ => none

/-- The value of a key, or null. -/
def get (key : Text) (v : Json) : Json := (v.get? key).getD .null

def text? : Json → Option Text
  | .str t => some t
  | _ => none

/-! ## Truth and equality -/

/-- Null, false, zero and whatever is empty do not count as given. -/
def isGiven : Json → Bool
  | .null => false
  | .bool b => b
  | .int n => n ≠ 0
  | .double d => !d.isZero
  | .str t => !t.isEmpty
  | .arr items => !items.isEmpty
  | .obj fields => !fields.isEmpty

/-- The name of the kind of value, as messages give it. -/
def kindName : Json → Text
  | .null => "NoneType"
  | .bool _ => "bool"
  | .int _ => "int"
  | .double _ => "float"
  | .str _ => "str"
  | .arr _ => "list"
  | .obj _ => "dict"

/-- The whole number that a value counts as. True and false count as one and zero. -/
def whole? : Json → Option Int
  | .bool b => some (if b then 1 else 0)
  | .int n => some n
  | _ => none

/-- Equality of values that hold no others. Numbers are equal if their values are, true and false
counting as one and zero. -/
def sameScalar (v w : Json) : Bool :=
  match v, w with
  | .null, .null => true
  | .str s, .str t => s = t
  | .double d, .double e => d.same e
  | .double d, w => (w.whole?.map d.eqInt).getD false
  | v, .double e => (v.whole?.map e.eqInt).getD false
  | v, w => match v.whole?, w.whole? with
    | some m, some n => m = n
    | _, _ => false

end Json

mutual

/-- Equality of values. Objects are equal if each key of one has an equal value in the other, in
whatever order. -/
def Json.same : Json → Json → Bool
  | .arr xs, .arr ys => Json.sameItems xs ys
  | .obj fs, .obj gs => fs.length = gs.length && Json.sameFields fs gs
  | .arr _, _ | .obj _, _ => false
  | v, w => v.sameScalar w

def Json.sameItems : List Json → List Json → Bool
  | [], [] => true
  | x :: xs, y :: ys => x.same y && Json.sameItems xs ys
  | _, _ => false

def Json.sameFields : List (Text × Json) → List (Text × Json) → Bool
  | [], _ => true
  | (k, v) :: rest, gs => (match field? k gs with
    | some w => v.same w
    | none => false) && Json.sameFields rest gs

end

end BlockScript
