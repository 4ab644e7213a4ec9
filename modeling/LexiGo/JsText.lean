import LexiGo.ListParts
import Mathlib.Algebra.GroupWithZero.Nat

/-! What the client uses of the strings of its language. -/
namespace JsText

/-- The white space and the line terminators that `trim` removes. -/
def isWhiteSpace (c : Char) : Bool :=
  ('\t' ≤ c && c ≤ '\r') || c = ' ' || c = '\u00A0' || c = '\u1680' ||
    ('\u2000' ≤ c && c ≤ '\u200A') || c = '\u2028' || c = '\u2029' || c = '\u202F' ||
    c = '\u205F' || c = '\u3000' || c = '\uFEFF'

/-- `String.prototype.trim` -/
def trim (s : String) : String :=
  String.ofList ((s.toList.dropWhile isWhiteSpace).rdropWhile isWhiteSpace)

/-- `String.prototype.split`, at each character of a class. -/
def split (p : Char → Bool) (s : String) : List String :=
  (s.toList.splitOnP p).map String.ofList

/-- `length`, in units of 16 bits. -/
def length (s : String) : Nat := (s.toList.map fun c => if c.toNat < 0x10000 then 1 else 2).sum

/-- No graphic character of ASCII is white space. -/
theorem isWhiteSpace_graphic {c : Char} (hlow : 32 < c.toNat) (hhigh : c.toNat ≤ 126) :
    isWhiteSpace c = false := by
  by_contra hspace
  rw [Bool.not_eq_false] at hspace
  simp [isWhiteSpace, Char.le_def, UInt32.le_iff_toNat_le, ← Char.toNat_inj] at hspace
  omega

theorem trim_trim (s : String) : trim (trim s) = trim s := by
  unfold trim
  rw [String.toList_ofList, ListParts.strip_strip]

end JsText
