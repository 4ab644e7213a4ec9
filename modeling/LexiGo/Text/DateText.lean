import LexiGo.Text.Timestamp

/-! The dates of days, in a calendar that goes on without end, and what the client's
language reads of dates and timestamps. Days are counted from 1970 on. -/
namespace DateText
open CivilTime DecimalDigits Timestamp

section Writing

/-- The date among the 400 years in which it lies, after which the calendar repeats. -/
def inCycle (d : Int) : Date := dateOf ((d + epoch) % 146097).toNat

def yearNumber (d : Int) : Int := 400 * ((d + epoch) / 146097) + (inCycle d).year - 400

/-- A year has four digits, or as many more as it needs. -/
def yearText (y : Int) : List Char :=
  (if y < 0 then ['-'] else []) ++ if y.natAbs < 10000 then pad 4 y.natAbs else decimal y.natAbs

/-- `Format("2006-01-02")` -/
def dayText (d : Int) : List Char :=
  yearText (yearNumber d) ++ '-' :: (pad 2 (inCycle d).month ++ '-' :: pad 2 (inCycle d).day)

end Writing

section Reading

/-- `\d{4}-\d{2}-\d{2}` with the months and days that there are, and what follows. -/
def readDay (text : List Char) : Option (List Char) :=
  (fixed 4 text).bind fun year =>
  (literal '-' year.2).bind fun rest =>
  (fixed 2 rest).bind fun month =>
  (literal '-' month.2).bind fun rest =>
  (fixed 2 rest).bind fun day =>
    if 1 ≤ month.1 ∧ month.1 ≤ 12 ∧ 1 ≤ day.1 ∧ day.1 ≤ 31 then some day.2 else none

/-- Hours, minutes and seconds; the last instant of a day may be written as its hour 24. -/
def readTime (text : List Char) : Option (List Char) :=
  (fixed 2 text).bind fun hour =>
  (literal ':' hour.2).bind fun rest =>
  (fixed 2 rest).bind fun minute =>
  (literal ':' minute.2).bind fun rest =>
  (fixed 2 rest).bind fun second =>
    if minute.1 < 60 ∧ second.1 < 60 ∧ (hour.1 < 24 ∨ hour.1 = 24 ∧ minute.1 = 0 ∧ second.1 = 0) then
      some second.2
    else none

def skipFraction : List Char → List Char
  | '.' :: rest => if rest.takeWhile Char.isDigit = [] then '.' :: rest else rest.dropWhile Char.isDigit
  | text => text

def isZone : List Char → Bool
  | [] => true
  | ['Z'] => true
  | sign :: rest =>
    (sign = '+' || sign = '-') &&
      ((fixed 2 rest).bind fun hours =>
        (literal ':' hours.2).bind fun rest =>
        (fixed 2 rest).filter fun minutes => hours.1 < 24 ∧ minutes.1 < 60 ∧ minutes.2 = []).isSome

/-- Whether `Date.parse` gives a number for a text of a day and a time of day, in the
language's own format with a year of four digits. How many digits a fraction has does not
matter. -/
def parses (text : List Char) : Bool :=
  ((readDay text).bind fun rest =>
    (literal 'T' rest).bind fun rest =>
    (readTime rest).filter fun rest => isZone (skipFraction rest)).isSome

/-- `/^\d{4}-\d{2}-\d{2}$/`, of a day for which `Date.parse` gives a number. -/
def isDate (text : List Char) : Bool := readDay text = some []

end Reading

theorem inCycle_valid (d : Int) : (inCycle d).Valid := dateOf_valid _

theorem readDay_text {y month day : Nat} (hyear : y < 10000) (hmonth : 1 ≤ month ∧ month ≤ 12)
    (hday : 1 ≤ day ∧ day ≤ 31) (rest : List Char) :
    readDay (pad 4 y ++ '-' :: (pad 2 month ++ '-' :: (pad 2 day ++ rest))) = some rest := by
  have h4 : y < 10 ^ 4 := hyear
  have h2 : month < 10 ^ 2 := by omega
  have h2' : day < 10 ^ 2 := by omega
  unfold readDay
  simp only [fixed_pad h4, fixed_pad h2, fixed_pad h2', literal_self, Option.bind_some]
  exact if_pos ⟨hmonth.1, hmonth.2, hday.1, hday.2⟩

/-- The digits of a longer year go on where the hyphen should stand. -/
theorem decimal_not_year {y : Nat} (hlong : 10000 ≤ y) {text rest : List Char}
    {year : Nat × List Char} (hfixed : fixed 4 (decimal y ++ text) = some year) :
    literal '-' year.2 ≠ some rest := by
  have hfour : 4 < (decimal y).length := by
    by_contra hshort
    rw [decimal, if_neg (by omega), List.length_map, List.length_reverse, not_lt,
      Nat.digits_length_le_iff (by decide)] at hshort
    omega
  obtain ⟨c, cs, hdrop⟩ := List.exists_cons_of_length_pos (l := (decimal y).drop 4)
    (by rw [List.length_drop]; omega)
  have hdigit := decimal_isDigit y c (List.mem_of_mem_drop (hdrop ▸ List.mem_cons_self))
  have hyear : year.2 = c :: (cs ++ text) := by
    unfold fixed at hfixed
    split at hfixed
    · cases hfixed
      rw [List.drop_append_of_le_length (by omega), hdrop, List.cons_append]
    · cases hfixed
  rw [hyear, literal, if_neg]
  · exact (Option.some_ne_none rest).symm
  · rintro rfl
    exact absurd hdigit (by decide)

/-- Exactly the dates of the years from 0 to 9999 have a text that is a date. -/
theorem isDate_dayText (d : Int) :
    isDate (dayText d) = true ↔ 0 ≤ yearNumber d ∧ yearNumber d < 10000 := by
  have hvalid := inCycle_valid d
  have hday := daysIn_le (inCycle d).month (inCycle d).year
  unfold isDate dayText yearText
  rw [decide_eq_true_eq]
  by_cases hnegative : yearNumber d < 0
  · refine iff_of_false ?_ (by omega)
    rw [if_pos hnegative]
    unfold readDay fixed
    rw [if_neg (by simp)]
    exact nofun
  · rw [if_neg hnegative, List.nil_append]
    by_cases hyear : yearNumber d < 10000
    · have htext := readDay_text (y := (yearNumber d).natAbs) (by omega) hvalid.month
        ⟨hvalid.day.1, Nat.le_trans hvalid.day.2 hday⟩ []
      rw [List.append_nil] at htext
      rw [if_pos (by omega), htext]
      exact iff_of_true rfl ⟨by omega, hyear⟩
    · refine iff_of_false ?_ (by omega)
      have hlong : 10000 ≤ (yearNumber d).natAbs := by omega
      rw [if_neg (by omega)]
      intro hread
      obtain ⟨year, hfixed, hrest⟩ := Option.bind_eq_some_iff.1 hread
      obtain ⟨rest, hliteral, -⟩ := Option.bind_eq_some_iff.1 hrest
      exact decimal_not_year hlong hfixed hliteral

theorem readTime_text {seconds : Nat} (h : seconds < 86400) (rest : List Char) :
    readTime (clockText seconds ++ rest) = some rest := by
  have hhour : seconds / 3600 < 10 ^ 2 := by omega
  have hminute : seconds / 60 % 60 < 10 ^ 2 := by omega
  have hsecond : seconds % 60 < 10 ^ 2 := by omega
  unfold readTime clockText
  simp only [List.append_assoc, List.cons_append, fixed_pad hhour, fixed_pad hminute,
    fixed_pad hsecond, literal_self, Option.bind_some]
  exact if_pos ⟨by omega, by omega, .inl (by omega)⟩

theorem skipFraction_text {nanos : Nat} (h : nanos < 10 ^ 9) {rest : List Char} (hrest : Closes rest) :
    skipFraction (fractionText nanos ++ rest) = rest := by
  obtain ⟨c, others, rfl, hdigit, hdot, -⟩ := hrest
  by_cases hzero : nanos = 0
  · rw [fractionText, if_pos hzero, List.nil_append, skipFraction.eq_2]
    intro rest heq
    exact hdot (List.cons.inj heq).1
  · have hne : trimmed (pad 9 nanos) ≠ [] := trimmed_ne_nil (by rwa [value_pad h])
    have hdigits : ∀ d ∈ trimmed (pad 9 nanos), d.isDigit = true :=
      fun d hd => pad_isDigit d ((trimmed_begins _).subset hd)
    rw [fractionText, if_neg hzero, List.cons_append, skipFraction,
      List.takeWhile_append_of_pos hdigits, List.dropWhile_append_of_pos hdigits,
      List.dropWhile_cons_of_neg (by simp [hdigit]), if_neg (by simp [hne])]

theorem isZone_text {zone : Int} (h : zone.natAbs < 1440) : isZone (zoneText zone) = true := by
  have hhours : zone.natAbs / 60 < 10 ^ 2 := by omega
  have hminutes : zone.natAbs % 60 < 10 ^ 2 := by omega
  have hfixed : fixed 2 (pad 2 (zone.natAbs % 60)) = some (zone.natAbs % 60, []) := by
    simpa using fixed_pad hminutes []
  have hin : zone.natAbs / 60 < 24 := by omega
  have hpart : zone.natAbs % 60 < 60 := Nat.mod_lt _ (by decide)
  unfold zoneText
  by_cases hzero : zone = 0
  · rw [if_pos hzero]
    rfl
  · rw [if_neg hzero, isZone.eq_3 _ _ fun _ hrest => absurd hrest (by simp)]
    simp only [fixed_pad hhours, literal_self, hfixed, Option.bind_some]
    split <;> simp [hin, hpart]

/-- The text of an instant, in whatever zone, is read by the client. -/
theorem parses_format {zone t : Int} (hzone : zone.natAbs < 1440) {text : List Char}
    (h : format zone t = some text) : parses text = true := by
  unfold format at h
  dsimp only at h
  split at h
  · rename_i hyears
    cases h
    have hclock : (localSeconds zone t % 86400).toNat < 86400 := by omega
    have hnanos : nanosOf t < 10 ^ 9 := by
      unfold nanosOf
      omega
    have hvalid := dateOf_valid (localSeconds zone t / 86400).toNat
    generalize dateOf (localSeconds zone t / 86400).toNat = d at hyears hvalid ⊢
    have hday := daysIn_le d.month d.year
    have htext := readDay_text (y := d.year - 400) (by omega) hvalid.month
      ⟨hvalid.day.1, Nat.le_trans hvalid.day.2 hday⟩
    unfold parses Timestamp.dateText
    simp only [List.append_assoc, List.cons_append, htext, literal_self, Option.bind_some,
      readTime_text hclock, skipFraction_text hnanos (zoneText_closes zone), Option.filter_some,
      isZone_text hzone, if_true, Option.isSome_some]
  · cases h

end DateText
