import Mathlib.Algebra.GroupWithZero.Nat
import Mathlib.Data.List.Infix
import Mathlib.Data.List.Basic

/-! Texts as sequences of units of 16 bits. A code point takes one unit or a pair of
surrogates; a surrogate that has no partner stands for itself. -/
namespace CodeUnits

/-- The units of a code point. -/
def unitsOf (point : Nat) : List UInt16 :=
  if point < 0x10000 then [UInt16.ofNat point]
  else [UInt16.ofNat (0xD800 + (point - 0x10000) / 0x400),
    UInt16.ofNat (0xDC00 + (point - 0x10000) % 0x400)]

def units (text : String) : List UInt16 := text.toList.flatMap fun c => unitsOf c.toNat

def isHigh (u : UInt16) : Bool := 0xD800 ≤ u && u ≤ 0xDBFF

def isLow (u : UInt16) : Bool := 0xDC00 ≤ u && u ≤ 0xDFFF

/-- The code points of a text, each by its units, as an iteration over the text meets them. -/
def characters : List UInt16 → List (List UInt16)
  | [] => []
  | [u] => [[u]]
  | u :: v :: rest =>
    if isHigh u && isLow v then [u, v] :: characters rest else [u] :: characters (v :: rest)

/-- How many octets a code point has in UTF-8, where a lone surrogate is replaced. -/
def width : List UInt16 → Nat
  | [u] => if u < 0x80 then 1 else if u < 0x800 then 2 else 3
  | _ => 4

/-- How long the UTF-8 of a text is. -/
def octets (text : List UInt16) : Nat := ((characters text).map width).sum

theorem characters_flatten (text : List UInt16) : (characters text).flatten = text := by
  fun_induction characters text with
  | case1 => rfl
  | case2 u => rfl
  | case3 u v rest hpair ih => simp [ih]
  | case4 u v rest hpair ih => simp [ih]

theorem characters_cons {u : UInt16} (h : isHigh u = false) (text : List UInt16) :
    characters (u :: text) = [u] :: characters text := by
  cases text with
  | nil => rfl
  | cons v rest => simp [characters, h]

/-- The first code point is read the same before any text that begins alike, or ends there. -/
theorem characters_first {text first : List UInt16} {more : List (List UInt16)}
    (h : characters text = first :: more) :
    characters more.flatten = more ∧
      ∀ rest, rest = [] ∨ rest.head? = more.flatten.head? →
        characters (first ++ rest) = first :: characters rest := by
  match text with
  | [] => cases h
  | [u] =>
    cases h
    refine ⟨rfl, ?_⟩
    rintro rest (rfl | hhead)
    · rfl
    · rw [List.head?_eq_none_iff.1 hhead]
      rfl
  | u :: v :: tail =>
    rw [characters] at h
    by_cases hpair : (isHigh u && isLow v) = true
    · rw [if_pos hpair] at h
      cases h
      refine ⟨by rw [characters_flatten], fun rest _ => ?_⟩
      rw [List.cons_append, List.cons_append, List.nil_append, characters, if_pos hpair]
    · rw [if_neg hpair] at h
      cases h
      rw [characters_flatten]
      refine ⟨rfl, ?_⟩
      rintro (_ | ⟨w, rest⟩) hrest
      · rfl
      · have hsame : w = v := by simpa using hrest
        rw [hsame, List.singleton_append, characters, if_neg hpair]

theorem characters_drop {text : List UInt16} {front back : List (List UInt16)}
    (h : characters text = front ++ back) : characters back.flatten = back := by
  induction front generalizing text with
  | nil =>
    rw [List.nil_append] at h
    rw [← h, characters_flatten]
  | cons first front ih => exact ih (characters_first h).1

theorem characters_take {text : List UInt16} {front back : List (List UInt16)}
    (h : characters text = front ++ back) : characters front.flatten = front := by
  induction front generalizing text with
  | nil => rfl
  | cons first front ih =>
    obtain ⟨hmore, hfirst⟩ := characters_first h
    have hhead : front.flatten = [] ∨ front.flatten.head? = (front ++ back).flatten.head? := by
      rw [List.flatten_append]
      cases front.flatten with
      | nil => exact .inl rfl
      | cons u rest => exact .inr rfl
    rw [List.flatten_cons, hfirst _ hhead, ih hmore]

/-- Some of the code points of a text, taken together from its midst, are read as they are. -/
theorem characters_within {text : List UInt16} {part : List (List UInt16)}
    (h : part <:+: characters text) : characters part.flatten = part := by
  obtain ⟨front, back, heq⟩ := h
  rw [List.append_assoc] at heq
  exact characters_take (characters_drop heq.symm)

theorem octets_within {text : List UInt16} {part : List (List UInt16)}
    (h : part <:+: characters text) : octets part.flatten = (part.map width).sum := by
  rw [octets, characters_within h]

theorem width_le (character : List UInt16) : width character ≤ 4 := by
  unfold width
  split
  · split
    · omega
    · split <;> omega
  · omega

theorem characters_ne_nil {text character : List UInt16} (h : character ∈ characters text) :
    character ≠ [] := by
  fun_induction characters text with
  | case1 => cases h
  | case2 u => simp_all
  | case3 u v rest hpair ih =>
    rcases List.mem_cons.1 h with rfl | h
    · exact List.cons_ne_nil _ _
    · exact ih h
  | case4 u v rest hpair ih =>
    rcases List.mem_cons.1 h with rfl | h
    · exact List.cons_ne_nil _ _
    · exact ih h

end CodeUnits
