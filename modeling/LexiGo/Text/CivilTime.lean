import Mathlib.Data.List.DropRight
import Mathlib.Data.List.TakeWhile
import Mathlib.Algebra.Order.Ring.Int
import Mathlib.Algebra.BigOperators.Group.List.Basic
import Mathlib.Tactic.Ring

/-! Dates of the Gregorian calendar and the text that an instant has in a zone. Instants
are counted in nanoseconds from 1970 on, and years from 400 years before the year 0, so
that no count of days is negative. -/
namespace CivilTime

section Calendar

def isLeap (year : Nat) : Bool := year % 4 = 0 && (year % 100 ≠ 0 || year % 400 = 0)

def monthLengths (leap : Bool) : List Nat :=
  [31, if leap then 29 else 28, 31, 30, 31, 30, 31, 31, 30, 31, 30, 31]

def daysIn (month year : Nat) : Nat := (monthLengths (isLeap year)).getD (month - 1) 0

structure Date where
  year : Nat
  month : Nat
  day : Nat
  deriving DecidableEq

/-- The date stands in the calendar. -/
structure Date.Valid (d : Date) : Prop where
  year : 1 ≤ d.year
  month : 1 ≤ d.month ∧ d.month ≤ 12
  day : 1 ≤ d.day ∧ d.day ≤ daysIn d.month d.year

/-- The days before a year begins, for years from 1 on. -/
def daysBefore (year : Nat) : Nat :=
  365 * (year - 1) + (year - 1) / 4 - (year - 1) / 100 + (year - 1) / 400

def dayNumber (d : Date) : Nat :=
  daysBefore d.year + ((monthLengths (isLeap d.year)).take (d.month - 1)).sum + (d.day - 1)

/-- Where a number falls in lengths that are laid end to end. -/
def locate : List Nat → Nat → Nat × Nat
  | [], n => (0, n)
  | l :: rest, n => if n < l then (0, n) else ((locate rest (n - l)).1 + 1, (locate rest (n - l)).2)

theorem locate_spec {lengths : List Nat} {n : Nat} (h : n < lengths.sum) :
    (locate lengths n).1 < lengths.length ∧
      (locate lengths n).2 < lengths.getD (locate lengths n).1 0 ∧
      (lengths.take (locate lengths n).1).sum + (locate lengths n).2 = n := by
  induction lengths generalizing n with
  | nil => simp at h
  | cons l rest ih =>
    rw [locate]
    split
    · rename_i hlt
      simp [hlt]
    · rename_i hge
      rw [List.sum_cons] at h
      obtain ⟨hindex, hpart, hsum⟩ := @ih (n - l) (by omega)
      refine ⟨by simpa using hindex, by simpa using hpart, ?_⟩
      simp only [List.take_succ_cons, List.sum_cons]
      omega

/-- Four parts, of which the last may be longer than `l`. -/
def quarter (l n : Nat) : Nat × Nat := (min (n / l) 3, n - l * min (n / l) 3)

theorem quarter_spec {l n : Nat} (hl : 0 < l) :
    (quarter l n).1 ≤ 3 ∧ n = l * (quarter l n).1 + (quarter l n).2 ∧
      ((quarter l n).1 ≤ 2 → (quarter l n).2 < l) := by
  have hmod := Nat.div_add_mod n l
  have hlt := Nat.mod_lt n hl
  simp only [quarter]
  by_cases hq : n / l ≤ 2
  · rw [Nat.min_eq_left (by omega)]
    omega
  · rw [Nat.min_eq_right (by omega)]
    have hle : l * 3 ≤ l * (n / l) := Nat.mul_le_mul_left l (by omega)
    omega

/-- The cycles of 400, 100 and 4 years, and the years of the last; the last year of a
cycle may be a day longer. -/
def yearOf (n : Nat) : Nat × Nat :=
  let century := quarter 36524 (n % 146097)
  let year := quarter 365 (century.2 % 1461)
  (400 * (n / 146097) + 100 * century.1 + 4 * (century.2 / 1461) + year.1 + 1, year.2)

theorem yearOf_cycles (n : Nat) : ∃ a b c d,
    (yearOf n).1 = 400 * a + 100 * b + 4 * c + d + 1 ∧
    n = 146097 * a + 36524 * b + 1461 * c + 365 * d + (yearOf n).2 ∧
    b ≤ 3 ∧ c ≤ 24 ∧ d ≤ 3 ∧ (yearOf n).2 ≤ 365 ∧
    ((yearOf n).2 = 365 → d = 3 ∧ (c = 24 → b = 3)) := by
  obtain ⟨hb, hcentury, hshort⟩ := @quarter_spec 36524 (n % 146097) (by decide)
  have hn := Nat.div_add_mod n 146097
  have hlt := Nat.mod_lt n (show 146097 > 0 by decide)
  simp only [yearOf]
  generalize quarter 36524 (n % 146097) = century at hb hcentury hshort ⊢
  obtain ⟨b, m⟩ := century
  obtain ⟨hd, hyear, hday⟩ := @quarter_spec 365 (m % 1461) (by decide)
  have hm := Nat.div_add_mod m 1461
  have hmlt := Nat.mod_lt m (show 1461 > 0 by decide)
  generalize quarter 365 (m % 1461) = year at hd hyear hday ⊢
  obtain ⟨d, r⟩ := year
  refine ⟨n / 146097, b, m / 1461, d, rfl, ?_, hb, ?_, hd, ?_, ?_⟩
  · simp only at hcentury hyear ⊢
    omega
  · simp only at hb hcentury hshort
    omega
  · simp only at hd hyear hday ⊢
    omega
  · simp only at hb hcentury hshort hd hyear hday ⊢
    omega

theorem sum_monthLengths (leap : Bool) :
    (monthLengths leap).sum = if leap then 366 else 365 := by
  cases leap <;> rfl

section Cycles

variable {a b c d : Nat}

theorem daysBefore_cycles (hb : b ≤ 3) (hc : c ≤ 24) (hd : d ≤ 3) :
    daysBefore (400 * a + 100 * b + 4 * c + d + 1) =
      146097 * a + 36524 * b + 1461 * c + 365 * d := by
  have h4 : (400 * a + 100 * b + 4 * c + d) / 4 = 100 * a + 25 * b + c := by omega
  have h100 : (400 * a + 100 * b + 4 * c + d) / 100 = 4 * a + b := by omega
  have h400 : (400 * a + 100 * b + 4 * c + d) / 400 = a := by omega
  rw [daysBefore, Nat.add_sub_cancel, h4, h100, h400]
  omega

/-- The last year of four is a leap year, unless a century ends with it that does not end
the cycle. -/
theorem isLeap_cycles (h : c = 24 → b = 3) (hc : c ≤ 24) :
    isLeap (400 * a + 100 * b + 4 * c + 3 + 1) = true := by
  have h4 : (400 * a + 100 * b + 4 * c + 3 + 1) % 4 = 0 := by omega
  by_cases hc' : c = 24
  · have h400 : (400 * a + 100 * b + 4 * c + 3 + 1) % 400 = 0 := by
      have := h hc'
      omega
    simp [isLeap, h4, h400]
  · have h100 : (400 * a + 100 * b + 4 * c + 3 + 1) % 100 ≠ 0 := by omega
    simp [isLeap, h4, h100]

end Cycles

theorem yearOf_spec (n : Nat) : daysBefore (yearOf n).1 + (yearOf n).2 = n ∧
    (yearOf n).2 < (monthLengths (isLeap (yearOf n).1)).sum := by
  obtain ⟨a, b, c, d, hyear, hn, hb, hc, hd, hr, hlong⟩ := yearOf_cycles n
  rw [sum_monthLengths, hyear]
  constructor
  · rw [daysBefore_cycles hb hc hd]
    exact hn.symm
  · by_cases hlast : (yearOf n).2 = 365
    · obtain ⟨rfl, hcentury⟩ := hlong hlast
      rw [isLeap_cycles hcentury hc, if_pos rfl, hlast]
      decide
    · have hshort : (yearOf n).2 < 365 := by omega
      split
      · exact Nat.lt_succ_of_lt hshort
      · exact hshort

def dateOf (n : Nat) : Date :=
  let (year, day) := yearOf n
  let (month, day) := locate (monthLengths (isLeap year)) day
  ⟨year, month + 1, day + 1⟩

theorem dayNumber_dateOf (n : Nat) : dayNumber (dateOf n) = n := by
  obtain ⟨hyear, hday⟩ := yearOf_spec n
  obtain ⟨-, -, hsum⟩ := locate_spec hday
  simp only [dateOf, dayNumber, Nat.add_sub_cancel]
  omega

theorem dateOf_valid (n : Nat) : (dateOf n).Valid := by
  obtain ⟨-, hday⟩ := yearOf_spec n
  obtain ⟨hmonth, hpart, -⟩ := locate_spec hday
  have hlength : (monthLengths (isLeap (yearOf n).1)).length = 12 := rfl
  rw [hlength] at hmonth
  have hyear : 1 ≤ (yearOf n).1 := by
    obtain ⟨a, b, c, d, heq, -⟩ := yearOf_cycles n
    omega
  refine ⟨hyear, ⟨by simp [dateOf], ?_⟩, ⟨by simp [dateOf], ?_⟩⟩
  · simp only [dateOf]
    omega
  · simp only [dateOf, daysIn, Nat.add_sub_cancel]
    omega

/-- A century drops a day that four years add, unless a cycle ends with it. -/
theorem leapDay_count {p q r : Prop} [Decidable p] [Decidable q] [Decidable r] (hqp : q → p)
    (hrq : r → q) {x i j k : Nat} (hj : j ≤ 365 * x) :
    365 * x + i - j + k + (if p ∧ (¬ q ∨ r) then 366 else 365) =
      365 * (x + 1) + (i + if p then 1 else 0) - (j + if q then 1 else 0) +
        (k + if r then 1 else 0) := by
  by_cases hr : r
  · simp only [hr, hrq hr, hqp (hrq hr), or_true, and_true, if_true]
    omega
  · by_cases hq : q
    · simp only [hr, hq, hqp hq, not_true, or_false, and_false, if_true, if_false]
      omega
    · by_cases hp : p
      · simp only [hr, hq, hp, not_false_eq_true, true_or, and_true, if_true, if_false]
        omega
      · simp only [hr, hq, hp, false_and, if_false]
        omega

theorem daysBefore_succ {y : Nat} (h : 1 ≤ y) :
    daysBefore y + (if isLeap y then 366 else 365) = daysBefore (y + 1) := by
  obtain ⟨x, rfl⟩ : ∃ x, y = x + 1 := ⟨y - 1, by omega⟩
  have h4 : (x + 1) / 4 = x / 4 + if (x + 1) % 4 = 0 then 1 else 0 := by split <;> omega
  have h100 : (x + 1) / 100 = x / 100 + if (x + 1) % 100 = 0 then 1 else 0 := by split <;> omega
  have h400 : (x + 1) / 400 = x / 400 + if (x + 1) % 400 = 0 then 1 else 0 := by split <;> omega
  have hle : x / 100 ≤ 365 * x := by omega
  simp only [daysBefore, isLeap, Nat.add_sub_cancel, Bool.and_eq_true, Bool.or_eq_true,
    decide_eq_true_eq, h4, h100, h400]
  exact leapDay_count (by omega) (by omega) hle

theorem daysBefore_mono {y z : Nat} (hy : 1 ≤ y) (h : y ≤ z) : daysBefore y ≤ daysBefore z := by
  induction z, h using Nat.le_induction with
  | base => exact Nat.le_refl _
  | succ z hle ih =>
    have hnext := daysBefore_succ (Nat.le_trans hy hle)
    exact Nat.le_trans ih (hnext ▸ Nat.le_add_right _ _)

theorem year_dateOf (n : Nat) :
    daysBefore (dateOf n).year ≤ n ∧ n < daysBefore ((dateOf n).year + 1) := by
  obtain ⟨hyear, hday⟩ := yearOf_spec n
  have hnext := daysBefore_succ (dateOf_valid n).year
  have heq : (dateOf n).year = (yearOf n).1 := rfl
  rw [sum_monthLengths] at hday
  rw [heq] at hnext ⊢
  omega

/-- The years that the days between two starts of a year lie in. -/
theorem year_between {n y z : Nat} (hz : 1 ≤ z) (hlow : daysBefore y ≤ n) (hhigh : n < daysBefore z) :
    y ≤ (dateOf n).year ∧ (dateOf n).year < z := by
  obtain ⟨hle, hlt⟩ := year_dateOf n
  constructor
  · by_contra hless
    have := @daysBefore_mono ((dateOf n).year + 1) y (by omega) (by omega)
    omega
  · by_contra hmore
    have := @daysBefore_mono z (dateOf n).year hz (by omega)
    omega

end Calendar

end CivilTime
