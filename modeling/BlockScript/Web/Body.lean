-- Bodies of requests. They are bytes, and which form of Unicode the bytes are in
-- is told by the nulls among the first of them.
import BlockScript.Text.Utf8

namespace BlockScript

/-- The forms in which a body can be. -/
inductive BodyForm where
  | utf8
  | units (width : Nat) (littleEnd : Bool)
deriving DecidableEq

/-- The form of bytes in which the first character is one of ASCII. -/
def BodyForm.of : List UInt8 → BodyForm
  | [0, _] => .units 2 false
  | [_, 0] => .units 2 true
  | 0 :: b :: _ :: _ :: _ => if b = 0 then .units 4 false else .units 2 false
  | _ :: 0 :: c :: d :: _ => if c = 0 ∧ d = 0 then .units 4 true else .units 2 true
  | _ => .utf8

/-- The numbers that bytes make up, `width` bytes each. Bytes that are left over make up none. -/
def unitsOf? (width : Nat) (littleEnd : Bool) : (fuel : Nat) → List UInt8 → Option (List Nat)
  | _, [] => some []
  | 0, _ :: _ => none
  | fuel + 1, bytes =>
    if bytes.length < width then none
    else
      let unit := if littleEnd then (bytes.take width).reverse else bytes.take width
      (unitsOf? width littleEnd fuel (bytes.drop width)).map
        (unit.foldl (fun n b => n * 256 + b.toNat) 0 :: ·)

/-- Units of sixteen bits as code points. Two halves that fit make up one, and other halves stay. -/
def pairsJoined : List Nat → List Nat
  | a :: b :: rest =>
    if 0xD800 ≤ a ∧ a < 0xDC00 ∧ 0xDC00 ≤ b ∧ b < 0xE000 then
      (0x10000 + (a - 0xD800) * 0x400 + (b - 0xDC00)) :: pairsJoined rest
    else a :: pairsJoined (b :: rest)
  | units => units

/-- The text of a body, if its bytes are in the form that they seem to be in. -/
def bodyText? (bytes : List UInt8) : Option Text :=
  match BodyForm.of bytes with
  | .utf8 => (Text.ofUtf8 bytes).toOption
  | .units width littleEnd => do
    let units ← unitsOf? width littleEnd bytes.length bytes
    let codes := if width = 2 then pairsJoined units else units
    guard (codes.all (· < 0x110000))
    return codes.map Glyph.ofCode

end BlockScript
