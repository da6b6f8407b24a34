-- How doubles are written. Positional notation serves a range of places of
-- the decimal point; outside it an exponent of at least two digits is given.
import BlockScript.Text
import BlockScript.Double.Digits

namespace BlockScript.Double

/-- The choices of a way to write numbers: the places of the point that are written
positionally, what ends a whole number, and the words for what is not finite. -/
structure Style where
  leastPoint : Int
  greatestPoint : Int
  wholeEnd : Text
  nan : Text
  infinity : Text

/-- Messages and values: point places from -3 to 16, whole numbers end in `.0`. -/
def Style.plain : Style :=
  { leastPoint := -3, greatestPoint := 16, wholeEnd := ".0", nan := "nan", infinity := "inf" }

/-- JSON documents, which spell out what is not finite. -/
def Style.document : Style := { Style.plain with nan := "NaN", infinity := "Infinity" }

/-- Time limits in messages, with six digits: point places from -3 to 6. -/
def Style.brief : Style :=
  { leastPoint := -3, greatestPoint := 6, wholeEnd := "", nan := "nan", infinity := "inf" }

/-- The digits without the zeros at their end, but at least one of them. -/
def trimZeros (ds : List Char) : List Char :=
  match (ds.reverse.dropWhile (· == '0')).reverse with
  | [] => ['0']
  | ds => ds

/-- An exponent of ten with its sign and at least two digits. -/
def exponentText (x : Int) : Text :=
  let ds := Nat.toDigits 10 x.natAbs
  Text.ofChars ((if x < 0 then '-' else '+') :: (if ds.length < 2 then '0' :: ds else ds))

/-- Writes digits with their point, positionally or with an exponent as the style says. -/
def Style.digits (s : Style) (d : Decimal) : Text :=
  let ds := trimZeros (Nat.toDigits 10 d.digits)
  if s.leastPoint ≤ d.point ∧ d.point ≤ s.greatestPoint then
    if d.point ≤ 0 then
      "0." ++ Text.ofChars (List.replicate (-d.point).toNat '0' ++ ds)
    else
      let whole := ds.take d.point.toNat
      let part := ds.drop d.point.toNat
      let fill := List.replicate (d.point.toNat - ds.length) '0'
      Text.ofChars (whole ++ fill)
        ++ (if part.isEmpty then s.wholeEnd else Text.ofChars ('.' :: part))
  else
    let part := if ds.length ≤ 1 then [] else '.' :: ds.drop 1
    Text.ofChars (ds.take 1 ++ part ++ ['e']) ++ exponentText (d.point - 1)

/-- Writes a number, given how to choose the digits of a finite one. -/
def Style.write (s : Style) (choose : Nat → Int → Decimal) : Double → Text
  | .nan => s.nan
  | .infinity negative => (if negative then "-" else "") ++ s.infinity
  | .finite negative m e =>
    (if negative then "-" else "")
      ++ s.digits (if m = 0 then { digits := 0, point := 1 } else choose m e)

def shown (d : Double) : Text := Style.plain.write shortest d

/-- The number in a JSON document. -/
def documented (d : Double) : Text := Style.document.write shortest d

/-- The number with six significant digits at most. -/
def brief (d : Double) : Text := Style.brief.write (significant 6) d

end BlockScript.Double
