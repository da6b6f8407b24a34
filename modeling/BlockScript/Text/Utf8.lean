-- UTF-8, both ways. Writing fails at the first lone half; reading fails at
-- the first byte that starts no character, and says which bytes are at fault.
-- In paths some halves stand for bytes that are no UTF-8.
import BlockScript.Text

namespace BlockScript

/-! ## Writing -/

/-- Where a text cannot be written: the first lone half, and how many stand in a row there. -/
structure EncodeError where
  first : Glyph
  position : Nat
  count : Nat
deriving DecidableEq

/-- Says what is wrong, naming a single half and giving the range of several. -/
def EncodeError.message (e : EncodeError) : Text :=
  if e.count ≤ 1 then
    "'utf-8' codec can't encode character '\\u" ++ Text.hex 4 e.first.code ++ "' in position "
      ++ Text.ofNat e.position ++ ": surrogates not allowed"
  else
    "'utf-8' codec can't encode characters in position " ++ Text.ofNat e.position ++ "-"
      ++ Text.ofNat (e.position + e.count - 1) ++ ": surrogates not allowed"

/-- The bytes of one code point. -/
def utf8Bytes (n : Nat) : List UInt8 :=
  if n < 0x80 then [n.toUInt8]
  else if n < 0x800 then [(0xC0 + n / 0x40).toUInt8, (0x80 + n % 0x40).toUInt8]
  else if n < 0x10000 then
    [(0xE0 + n / 0x1000).toUInt8, (0x80 + n / 0x40 % 0x40).toUInt8, (0x80 + n % 0x40).toUInt8]
  else
    [(0xF0 + n / 0x40000).toUInt8, (0x80 + n / 0x1000 % 0x40).toUInt8,
     (0x80 + n / 0x40 % 0x40).toUInt8, (0x80 + n % 0x40).toUInt8]

namespace Text

/-- Where the first glyph stands that is `bad`, with the halves that follow it in a row. -/
def errorAt? (bad : Glyph → Bool) (t : Text) : Option EncodeError :=
  match t.dropWhile fun g => !bad g with
  | [] => none
  | g :: rest => some {
      first := g
      position := t.length - (rest.length + 1)
      count := 1 + (rest.takeWhile Glyph.isHalf).length }

/-- The first lone half of the text, if it has one. -/
def encodeError? (t : Text) : Option EncodeError := t.errorAt? Glyph.isHalf

def utf8 (t : Text) : Except EncodeError (List UInt8) :=
  match t.encodeError? with
  | none => .ok (t.flatMap fun g => utf8Bytes g.code)
  | some e => .error e

end Text

/-! ## Reading -/

inductive DecodeCause where
  | start
  | continuation
  | endOfData
deriving DecidableEq

/-- The bytes that cannot be read: where they start, how many they are, and the first of them. -/
structure DecodeError where
  cause : DecodeCause
  byte : UInt8
  position : Nat
  count : Nat
deriving DecidableEq

def DecodeCause.message : DecodeCause → Text
  | .start => "invalid start byte"
  | .continuation => "invalid continuation byte"
  | .endOfData => "unexpected end of data"

def DecodeError.message (e : DecodeError) : Text :=
  (if e.count ≤ 1 then
    "'utf-8' codec can't decode byte 0x" ++ Text.hex 2 e.byte.toNat ++ " in position "
      ++ Text.ofNat e.position
  else
    "'utf-8' codec can't decode bytes in position " ++ Text.ofNat e.position ++ "-"
      ++ Text.ofNat (e.position + e.count - 1))
  ++ ": " ++ e.cause.message

/-- A byte that continues a character. -/
def isContinuation (b : UInt8) : Bool := 0x80 ≤ b && b < 0xC0

/-- Whether `second` may follow the first byte `first`: overlong forms, halves and numbers past
the last code point are shut out here. -/
def secondFits (first second : UInt8) : Bool :=
  isContinuation second &&
    (if first == 0xE0 then 0xA0 ≤ second
     else if first == 0xED then second < 0xA0
     else if first == 0xF0 then 0x90 ≤ second
     else if first == 0xF4 then second < 0x90
     else true)

/-- How many bytes a character with this first byte has. -/
def sequenceLength? (first : UInt8) : Option Nat :=
  if first < 0x80 then some 1
  else if first < 0xC2 then none
  else if first < 0xE0 then some 2
  else if first < 0xF0 then some 3
  else if first < 0xF5 then some 4
  else none

/-- What the bytes at the front of a list are: a character, given with its number of further
bytes, or a fault over that many bytes. -/
inductive Lead where
  | glyph (g : Glyph) (further : Nat)
  | bad (cause : DecodeCause) (count : Nat)

/-- The bits that a byte adds to the code point `n`. -/
def pushBits (n : Nat) (b : UInt8) : Nat := n * 0x40 + (b.toNat - 0x80)

def Lead.of (first : UInt8) (rest : List UInt8) : Lead :=
  match sequenceLength? first, rest with
  | none, _ => .bad .start 1
  | some 1, _ => .glyph (Glyph.ofCode first.toNat) 0
  | some 2, [] => .bad .endOfData 1
  | some 2, b :: _ =>
    if secondFits first b then .glyph (Glyph.ofCode (pushBits (first.toNat - 0xC0) b)) 1
    else .bad .continuation 1
  | some 3, [] => .bad .endOfData 1
  | some 3, [b] => if secondFits first b then .bad .endOfData 2 else .bad .continuation 1
  | some 3, b :: c :: _ =>
    if !secondFits first b then .bad .continuation 1
    else if !isContinuation c then .bad .continuation 2
    else .glyph (Glyph.ofCode (pushBits (pushBits (first.toNat - 0xE0) b) c)) 2
  | some _, [] => .bad .endOfData 1
  | some _, [b] => if secondFits first b then .bad .endOfData 2 else .bad .continuation 1
  | some _, [b, c] =>
    if !secondFits first b then .bad .continuation 1
    else if !isContinuation c then .bad .continuation 2
    else .bad .endOfData 3
  | some _, b :: c :: d :: _ =>
    if !secondFits first b then .bad .continuation 1
    else if !isContinuation c then .bad .continuation 2
    else if !isContinuation d then .bad .continuation 3
    else .glyph (Glyph.ofCode (pushBits (pushBits (pushBits (first.toNat - 0xF0) b) c) d)) 3

/-- Reads on, with `skip` bytes of the last character still to pass. -/
def readUtf8From : (position skip : Nat) → List UInt8 → Except DecodeError Text
  | _, _, [] => .ok []
  | position, skip + 1, _ :: rest => readUtf8From (position + 1) skip rest
  | position, 0, b :: rest =>
    match Lead.of b rest with
    | .glyph g further => do return g :: (← readUtf8From (position + 1) further rest)
    | .bad cause count => .error { cause, byte := b, position, count }

def Text.ofUtf8 (bytes : List UInt8) : Except DecodeError Text := readUtf8From 0 0 bytes

/-! ## Paths -/

namespace Glyph

/-- A half that stands for one byte in a path: U+DC80 to U+DCFF, for the bytes from 0x80 on. -/
def isByte : Glyph → Bool
  | .char _ => false
  | .half n => 0x480 ≤ n.val && n.val < 0x500

/-- The bytes of a glyph in a path. -/
def pathBytes (g : Glyph) : List UInt8 :=
  if g.isByte then [(g.code - 0xDC00).toUInt8] else utf8Bytes g.code

/-- A glyph that no path can have. -/
def isUnpathable (g : Glyph) : Bool := g.isHalf && !g.isByte

end Glyph

namespace Text

/-- The first half of a path that stands for no byte, if there is one. -/
def pathError? (t : Text) : Option EncodeError := t.errorAt? Glyph.isUnpathable

def pathBytes (t : Text) : List UInt8 := t.flatMap Glyph.pathBytes

/-- Reads the bytes of a path on, with `skip` bytes of the last character still to pass. A byte at
which no character starts is a half. -/
def readPathFrom : (skip : Nat) → List UInt8 → Text
  | _, [] => []
  | skip + 1, _ :: rest => readPathFrom skip rest
  | 0, b :: rest =>
    match Lead.of b rest with
    | .glyph g further => g :: readPathFrom further rest
    | .bad _ _ => Glyph.ofCode (0xDC00 + b.toNat) :: readPathFrom 0 rest

end Text

end BlockScript
