-- The SHA-1 digest of a list of bytes, and the short form of it that names
-- and file names carry.
import BlockScript.Text

namespace BlockScript.Digest

/-- The five words of the running digest. -/
structure State where
  a : UInt32
  b : UInt32
  c : UInt32
  d : UInt32
  e : UInt32

def State.start : State := ⟨0x67452301, 0xEFCDAB89, 0x98BADCFE, 0x10325476, 0xC3D2E1F0⟩

def rotate (w : UInt32) (n : UInt32) : UInt32 := (w <<< n) ||| (w >>> (32 - n))

/-- The number in big endian order, on `width` bytes. -/
def bigEndian : (width : Nat) → Nat → List UInt8
  | 0, _ => []
  | width + 1, n => bigEndian width (n / 256) ++ [n.toUInt8]

/-- The bytes with a one bit, zeros and the length in bits after them, a multiple of 64 in all. -/
def padded (bytes : List UInt8) : List UInt8 :=
  let zeros := (119 - bytes.length % 64) % 64
  bytes ++ 0x80 :: List.replicate zeros 0 ++ bigEndian 8 (8 * bytes.length)

/-- The bytes in groups of four, as words. Bytes that do not fill a group are left out. -/
def words : List UInt8 → List UInt32
  | w :: x :: y :: z :: rest =>
    (w.toUInt32 <<< 24 ||| x.toUInt32 <<< 16 ||| y.toUInt32 <<< 8 ||| z.toUInt32) :: words rest
  | _ => []

/-- The next `count` words of the schedule, given the last sixteen, the newest first. -/
def extend : (count : Nat) → (recent : List UInt32) → List UInt32
  | 0, _ => []
  | count + 1, recent =>
    let w := rotate
      (recent.getD 2 0 ^^^ recent.getD 7 0 ^^^ recent.getD 13 0 ^^^ recent.getD 15 0) 1
    w :: extend count (w :: recent.take 15)

/-- The eighty words that a block of sixteen is mixed in with. -/
def schedule (block : List UInt32) : List UInt32 := block ++ extend 64 block.reverse

/-- The mix of three words and the constant of round `t`. -/
def roundMix (t : Nat) (b c d : UInt32) : UInt32 :=
  if t < 20 then ((b &&& c) ||| (~~~b &&& d)) + 0x5A827999
  else if t < 40 then (b ^^^ c ^^^ d) + 0x6ED9EBA1
  else if t < 60 then ((b &&& c) ||| (b &&& d) ||| (c &&& d)) + 0x8F1BBCDC
  else (b ^^^ c ^^^ d) + 0xCA62C1D6

def rounds : (t : Nat) → List UInt32 → State → State
  | _, [], s => s
  | t, w :: rest, s =>
    rounds (t + 1) rest
      ⟨rotate s.a 5 + roundMix t s.b s.c s.d + s.e + w, s.a, rotate s.b 30, s.c, s.d⟩

/-- Mixes the blocks in one after the other. The count bounds the number of blocks. -/
def absorb : (count : Nat) → List UInt32 → State → State
  | 0, _, s => s
  | count + 1, ws, s =>
    let r := rounds 0 (schedule (ws.take 16)) s
    absorb count (ws.drop 16) ⟨s.a + r.a, s.b + r.b, s.c + r.c, s.d + r.d, s.e + r.e⟩

def sha1 (bytes : List UInt8) : State :=
  let ws := words (padded bytes)
  absorb (ws.length / 16) ws .start

/-- The digest in base sixteen. -/
def State.hex (s : State) : Text :=
  [s.a, s.b, s.c, s.d, s.e].flatMap fun w => Text.hex 8 w.toNat

/-- The first six digits of the digest in base sixteen. -/
def short (bytes : List UInt8) : Text := (sha1 bytes).hex.take 6

end BlockScript.Digest
