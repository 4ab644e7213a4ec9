import LexiGo.Text.CivilTime
import LexiGo.Text.DecimalDigits

/-! The text that an instant has in a zone: a date, a time of day with as much of a
fraction as it needs, and how far the zone is ahead. Instants are counted in nanoseconds
from 1970 on. -/
namespace Timestamp
open CivilTime DecimalDigits

/-- The days before 1970, from where `CivilTime` counts; its year 400 is the year 0. -/
def epoch : Int := daysBefore 2370

def nanosOf (t : Int) : Nat := (t % 1000000000).toNat

/-- The seconds that a clock in the zone shows, which is `zone` minutes ahead. -/
def localSeconds (zone t : Int) : Int := t / 1000000000 + 60 * zone + 86400 * epoch

def fractionText (nanos : Nat) : List Char :=
  if nanos = 0 then [] else '.' :: trimmed (pad 9 nanos)

def zoneText (zone : Int) : List Char :=
  if zone = 0 then ['Z']
  else (if 0 < zone then '+' else '-') ::
    (pad 2 (zone.natAbs / 60) ++ ':' :: pad 2 (zone.natAbs % 60))

def clockText (seconds : Nat) : List Char :=
  pad 2 (seconds / 3600) ++ ':' :: (pad 2 (seconds / 60 % 60) ++ ':' :: pad 2 (seconds % 60))

def dateText (d : Date) : List Char :=
  pad 4 (d.year - 400) ++ '-' :: (pad 2 d.month ++ '-' :: pad 2 d.day)

/-- There is a text for the years of four digits. -/
def format (zone t : Int) : Option (List Char) :=
  let seconds := localSeconds zone t
  let d := dateOf (seconds / 86400).toNat
  if 0 ≤ seconds ∧ 400 ≤ d.year ∧ d.year < 10400 then
    some (dateText d ++ 'T' :: (clockText (seconds % 86400).toNat ++
      (fractionText (nanosOf t) ++ zoneText zone)))
  else none

def literal (c : Char) : List Char → Option (List Char)
  | d :: rest => if d = c then some rest else none
  | [] => none

/-- An hour may be a single digit. -/
def readHour (text : List Char) : Option (Nat × List Char) :=
  (fixed 2 text).or (fixed 1 text)

def readFraction : List Char → Nat × List Char
  | c :: rest =>
    if (c = '.' ∨ c = ',') ∧ (rest.takeWhile Char.isDigit) ≠ [] then
      (value ((rest.takeWhile Char.isDigit).take 9) *
        10 ^ (9 - ((rest.takeWhile Char.isDigit).take 9).length), rest.dropWhile Char.isDigit)
    else (0, c :: rest)
  | [] => (0, [])

/-- The minutes that a zone is ahead; 24 hours and 60 minutes are still let through. -/
def readZone (text : List Char) : Option Int := do
  if text = ['Z'] then
    return 0
  else
    let (sign, rest) ← text.head?.map fun c => (c, text.tail)
    let (hours, rest) ← fixed 2 rest
    let rest ← literal ':' rest
    let (minutes, rest) ← fixed 2 rest
    if (sign = '+' ∨ sign = '-') ∧ hours ≤ 24 ∧ minutes ≤ 60 ∧ rest = [] then
      return (if sign = '+' then 1 else -1) * (60 * hours + minutes : Nat)
    else none

def readDate (text : List Char) : Option (Date × List Char) := do
  let (year, rest) ← fixed 4 text
  let rest ← literal '-' rest
  let (month, rest) ← fixed 2 rest
  let rest ← literal '-' rest
  let (day, rest) ← fixed 2 rest
  if 1 ≤ month ∧ month ≤ 12 ∧ 1 ≤ day ∧ day ≤ daysIn month (year + 400) then
    return (⟨year + 400, month, day⟩, rest)
  else none

def readClock (text : List Char) : Option (Nat × List Char) := do
  let (hour, rest) ← readHour text
  let rest ← literal ':' rest
  let (minute, rest) ← fixed 2 rest
  let rest ← literal ':' rest
  let (second, rest) ← fixed 2 rest
  if hour < 24 ∧ minute < 60 ∧ second < 60 then
    return (3600 * hour + 60 * minute + second, rest)
  else none

def parse (text : List Char) : Option Int := do
  let (d, rest) ← readDate text
  let rest ← literal 'T' rest
  let (seconds, rest) ← readClock rest
  let (nanos, rest) := readFraction rest
  let zone ← readZone rest
  return (86400 * (dayNumber d - epoch) + seconds - 60 * zone) * 1000000000 + nanos

section RoundTrip

theorem daysIn_le (month year : Nat) : daysIn month year ≤ 31 := by
  have hall : ∀ leap : Bool, ∀ l ∈ monthLengths leap, l ≤ 31 := by decide
  unfold daysIn
  rw [List.getD_eq_getElem?_getD]
  cases h : (monthLengths (isLeap year))[month - 1]? with
  | none => exact Nat.zero_le 31
  | some l => exact hall _ l (List.mem_of_getElem? h)

@[simp] theorem literal_self (c : Char) (rest : List Char) : literal c (c :: rest) = some rest :=
  if_pos rfl

theorem readDate_text {d : Date} (h : d.Valid) (hfrom : 400 ≤ d.year) (hto : d.year < 10400)
    (rest : List Char) : readDate (dateText d ++ rest) = some (d, rest) := by
  have hmonth := h.month
  have hday := h.day
  have hle := daysIn_le d.month d.year
  have hyear : d.year - 400 + 400 = d.year := by omega
  have h4 : d.year - 400 < 10 ^ 4 := by omega
  have h2 : d.month < 10 ^ 2 := by omega
  have h2' : d.day < 10 ^ 2 := by omega
  unfold readDate dateText
  simp only [List.append_assoc, List.cons_append, fixed_pad h4, fixed_pad h2, fixed_pad h2',
    literal_self, bind, Option.bind_some, hyear]
  rw [if_pos ⟨hmonth.1, hmonth.2, hday.1, hday.2⟩]
  rfl

theorem readClock_text {seconds : Nat} (h : seconds < 86400) (rest : List Char) :
    readClock (clockText seconds ++ rest) = some (seconds, rest) := by
  have hhour : seconds / 3600 < 10 ^ 2 := by omega
  have hminute : seconds / 60 % 60 < 10 ^ 2 := by omega
  have hsecond : seconds % 60 < 10 ^ 2 := by omega
  have hsum : 3600 * (seconds / 3600) + 60 * (seconds / 60 % 60) + seconds % 60 = seconds := by omega
  unfold readClock clockText readHour
  simp only [List.append_assoc, List.cons_append, fixed_pad hhour, fixed_pad hminute,
    fixed_pad hsecond, literal_self, bind, Option.bind_some, Option.some_or]
  rw [if_pos (by omega), hsum]
  rfl

/-- What may stand behind a fraction. -/
def Closes (rest : List Char) : Prop :=
  ∃ c others, rest = c :: others ∧ c.isDigit = false ∧ c ≠ '.' ∧ c ≠ ','

theorem readFraction_text {nanos : Nat} (h : nanos < 10 ^ 9) {rest : List Char} (hrest : Closes rest) :
    readFraction (fractionText nanos ++ rest) = (nanos, rest) := by
  obtain ⟨c, others, rfl, hdigit, hdot, hcomma⟩ := hrest
  by_cases hzero : nanos = 0
  · simp [fractionText, hzero, readFraction, hdot, hcomma]
  · have hvalue := value_pad h
    have hne : trimmed (pad 9 nanos) ≠ [] := trimmed_ne_nil (by omega)
    have hpart := trimmed_begins (pad 9 nanos)
    have hdigits : ∀ d ∈ trimmed (pad 9 nanos), d.isDigit = true :=
      fun d hd => pad_isDigit d (hpart.subset hd)
    have htake : (trimmed (pad 9 nanos) ++ c :: others).takeWhile Char.isDigit =
        trimmed (pad 9 nanos) := by
      rw [List.takeWhile_append_of_pos hdigits, List.takeWhile_cons_of_neg (by simp [hdigit]),
        List.append_nil]
    have hdrop : (trimmed (pad 9 nanos) ++ c :: others).dropWhile Char.isDigit = c :: others := by
      rw [List.dropWhile_append_of_pos hdigits, List.dropWhile_cons_of_neg (by simp [hdigit])]
    have hlength : (trimmed (pad 9 nanos)).length ≤ 9 := by
      simpa using hpart.length_le
    have hsum := value_trimmed (pad 9 nanos)
    rw [length_pad, hvalue] at hsum
    rw [fractionText, if_neg hzero, List.cons_append, readFraction, htake, hdrop,
      if_pos ⟨.inl rfl, hne⟩, List.take_of_length_le hlength, hsum]

theorem readZone_text {zone : Int} (h : zone.natAbs < 1440) : readZone (zoneText zone) = some zone := by
  unfold zoneText
  by_cases hzero : zone = 0
  · rw [if_pos hzero, hzero]
    rfl
  · have hhours : zone.natAbs / 60 < 10 ^ 2 := by omega
    have hminutes : zone.natAbs % 60 < 10 ^ 2 := by omega
    have hfixed : fixed 2 (pad 2 (zone.natAbs % 60)) = some (zone.natAbs % 60, []) := by
      simpa using fixed_pad hminutes []
    have hsum : 60 * (zone.natAbs / 60) + zone.natAbs % 60 = zone.natAbs := by omega
    rw [if_neg hzero, readZone]
    by_cases hpos : 0 < zone
    · rw [if_pos hpos, if_neg (by simp)]
      simp only [List.head?_cons, List.tail_cons, Option.map_some, bind, Option.bind_some,
        fixed_pad hhours, literal_self, hfixed]
      rw [if_pos ⟨.inl trivial, by omega, by omega, trivial⟩, hsum, if_pos trivial]
      simp only [pure, Option.some.injEq]
      omega
    · rw [if_neg hpos, if_neg (by simp)]
      simp only [List.head?_cons, List.tail_cons, Option.map_some, bind, Option.bind_some,
        fixed_pad hhours, literal_self, hfixed]
      rw [if_pos ⟨.inr trivial, by omega, by omega, trivial⟩, hsum, if_neg (by decide)]
      simp only [pure, Option.some.injEq]
      omega

theorem zoneText_closes (zone : Int) : Closes (zoneText zone) := by
  unfold zoneText
  split
  · exact ⟨'Z', [], rfl, by decide, by decide, by decide⟩
  · split
    · exact ⟨'+', _, rfl, by decide, by decide, by decide⟩
    · exact ⟨'-', _, rfl, by decide, by decide, by decide⟩

/-- The text of an instant, in whatever zone, is read as that instant. -/
theorem parse_format {zone t : Int} (hzone : zone.natAbs < 1440) {text : List Char}
    (h : format zone t = some text) : parse text = some t := by
  unfold format at h
  dsimp only at h
  split at h
  · rename_i hyears
    obtain ⟨hstart, hfrom, hto⟩ := hyears
    cases h
    have hclock : (localSeconds zone t % 86400).toNat < 86400 := by omega
    have hnanos : nanosOf t < 10 ^ 9 := by
      unfold nanosOf
      omega
    unfold parse
    simp only [readDate_text (dateOf_valid _) hfrom hto, literal_self, readClock_text hclock,
      readFraction_text hnanos (zoneText_closes zone), readZone_text hzone, bind, Option.bind_some,
      dayNumber_dateOf, pure, Option.some.injEq]
    unfold localSeconds nanosOf at *
    generalize epoch = e at *
    omega
  · cases h

/-- From 1970 to the last day but one of the year 9999 there is a text in every zone. -/
theorem format_isSome {zone t : Int} (hzone : zone.natAbs < 1440) (hstart : 0 ≤ t)
    (hend : t < 253402214400 * 1000000000) : (format zone t).isSome = true := by
  have hepoch : epoch = 865259 := by decide
  have hseconds : 0 ≤ localSeconds zone t := by
    unfold localSeconds
    omega
  have hlow : daysBefore 400 ≤ (localSeconds zone t / 86400).toNat := by
    have hfirst : daysBefore 400 = 145731 := by decide
    unfold localSeconds
    omega
  have hhigh : (localSeconds zone t / 86400).toNat < daysBefore 10400 := by
    have hlast : daysBefore 10400 = 3798156 := by decide
    unfold localSeconds
    omega
  have hyears := year_between (by decide) hlow hhigh
  unfold format
  dsimp only
  rw [if_pos ⟨hseconds, hyears⟩]
  rfl

/-- The characters of a text that are written in a string as they are. -/
def Plain (text : List Char) : Prop := ∀ c ∈ text, c ≠ '"' ∧ c ≠ '\\' ∧ 32 ≤ c.toNat ∧ c.toNat < 128

theorem plain_append {a b : List Char} : Plain (a ++ b) ↔ Plain a ∧ Plain b := List.forall_mem_append

theorem plain_cons {c : Char} {b : List Char} :
    Plain (c :: b) ↔ (c ≠ '"' ∧ c ≠ '\\' ∧ 32 ≤ c.toNat ∧ c.toNat < 128) ∧ Plain b :=
  List.forall_mem_cons

theorem plain_digits {text : List Char} (h : ∀ c ∈ text, c.isDigit = true) : Plain text := by
  intro c hc
  have hdigit := h c hc
  simp only [Char.isDigit, Bool.and_eq_true, decide_eq_true_eq] at hdigit
  have hfrom : 48 ≤ c.toNat := hdigit.1
  have hto : c.toNat ≤ 57 := hdigit.2
  refine ⟨?_, ?_, by omega, by omega⟩
  · rintro rfl
    exact absurd hfrom (by decide)
  · rintro rfl
    exact absurd hto (by decide)

theorem plain_pad (k n : Nat) : Plain (pad k n) := plain_digits pad_isDigit

theorem format_plain {zone t : Int} {text : List Char} (h : format zone t = some text) :
    Plain text := by
  have hfraction : Plain (fractionText (nanosOf t)) := by
    unfold fractionText
    split
    · exact List.forall_mem_nil _
    · exact plain_cons.2 ⟨by decide, fun c hc =>
        plain_pad _ _ c ((trimmed_begins _).subset hc)⟩
  have hzone : Plain (zoneText zone) := by
    unfold zoneText
    split
    · exact plain_cons.2 ⟨by decide, List.forall_mem_nil _⟩
    · refine plain_cons.2 ⟨by split <;> decide, plain_append.2 ⟨plain_pad _ _, ?_⟩⟩
      exact plain_cons.2 ⟨by decide, plain_pad _ _⟩
  unfold format at h
  dsimp only at h
  split at h
  · cases h
    simp only [dateText, clockText, plain_append, plain_cons, plain_pad, hfraction, hzone]
    decide
  · cases h

end RoundTrip

end Timestamp
