import Mathlib.Algebra.Group.Nat.Defs
import Mathlib.Data.List.DropRight

/-! The parts of Go's `strings`, `unicode` and `math` packages that the services
use. The tables of the Unicode standard are not repeated here: what is read from
them is a parameter. -/
namespace GoText

/-- `unicode.IsSpace` -/
def isSpace (c : Char) : Bool :=
  ('\t' ≤ c && c ≤ '\r') || c = ' ' || c = '\u0085' || c = '\u00A0' || c = '\u1680' ||
    ('\u2000' ≤ c && c ≤ '\u200A') || c = '\u2028' || c = '\u2029' || c = '\u202F' ||
    c = '\u205F' || c = '\u3000'

/-- `strings.TrimSpace` -/
def trimSpace (s : String) : String :=
  String.ofList ((s.toList.dropWhile isSpace).rdropWhile isSpace)

/-- The classes and the simple case mappings of the Unicode standard;
`simpleFold` takes a character to the representative of its folding class. -/
structure Unicode where
  isLetter : Char → Bool
  isNumber : Char → Bool
  toLower : Char → Char
  simpleFold : Char → Char

/-- The letters of ASCII. -/
def ascii : Unicode where
  isLetter := Char.isAlpha
  isNumber := Char.isDigit
  toLower := Char.toLower
  simpleFold := Char.toLower

/-- `strings.EqualFold` -/
def Unicode.equalFold (unicode : Unicode) (s t : String) : Bool :=
  s.toList.map unicode.simpleFold = t.toList.map unicode.simpleFold

/-- `strings.FieldsFunc` on the characters of a string. -/
def fieldsFunc (p : Char → Bool) (s : String) : List String :=
  ((s.toList.splitOnP p).filter fun part => !part.isEmpty).map String.ofList

/-- `math.Round`, for the values that are not negative. -/
def round (x : Float) : Nat :=
  let whole := x.toUInt64
  if x - whole.toFloat < 0.5 then whole.toNat else whole.toNat + 1

/-- What a signed 64-bit integer holds after an operation that overflows. -/
def wrap64 (n : Int) : Int := n.bmod (2 ^ 64)

end GoText
