import LexiGo.JsText
import LexiGo.Text.DecimalDigits
import Mathlib.Algebra.Order.Field.Rat
import Mathlib.Tactic.Positivity

/-! The values that the client reads from storage and history, before it knows what they
are. A number is known by the decimal that the language writes for it. -/
namespace ClientValues

/-- A fraction has `places` digits behind the point and does not end in a zero. -/
inductive JsNumber
  | integer (n : Int)
  | fraction (negative : Bool) (digits places : Nat)
  | negativeZero
  | nan
  | infinity (negative : Bool)
  deriving DecidableEq

inductive JsValue
  | undefined
  | null
  | boolean (b : Bool)
  | number (x : JsNumber)
  | string (s : String)
  | array (items : List JsValue)
  | object (members : List (String × JsValue))

/-- The property of a value under a name. -/
def property (name : String) : JsValue → JsValue
  | .object members => ((members.find? (·.1 = name)).map (·.2)).getD .undefined
  | _ => .undefined

/-- An object of the fields that have a value. -/
def record (fields : List (String × Option JsValue)) : JsValue :=
  .object (fields.filterMap fun field => field.2.map fun value => (field.1, value))

def isRecord : JsValue → Bool
  | .object _ => true
  | _ => false

def isUndefined : JsValue → Bool
  | .undefined => true
  | _ => false

/-- The text of a value that is one. -/
def text : JsValue → Option String
  | .string s => some s
  | _ => none

def number : JsValue → Option JsNumber
  | .number x => some x
  | _ => none

def isFinite : JsNumber → Bool
  | .nan => false
  | .infinity _ => false
  | _ => true

/-- Whether a number is at least zero. -/
def nonNegative : JsNumber → Bool
  | .integer n => 0 ≤ n
  | .fraction negative _ _ => !negative
  | .negativeZero => true
  | .nan => false
  | .infinity negative => !negative

def maxSafeInteger : Nat := 9007199254740991

/-- `===` on numbers. -/
def sameNumber : JsNumber → JsNumber → Bool
  | .nan, _ => false
  | .negativeZero, .integer 0 => true
  | .integer 0, .negativeZero => true
  | x, y => x = y

/-- What a finite number is worth. -/
def worth : JsNumber → Rat
  | .integer n => n
  | .fraction negative digits places => (if negative then -(digits : Rat) else digits) / 10 ^ places
  | _ => 0

/-- `<` on numbers. -/
def lessThan : JsNumber → JsNumber → Bool
  | .nan, _ => false
  | _, .nan => false
  | .infinity negative, y => negative && y ≠ .infinity true
  | _, .infinity negative => !negative
  | x, y => worth x < worth y

/-- `Math.max`, of zero and a number. -/
def atLeastZero : JsNumber → JsNumber
  | .nan => .nan
  | x => if nonNegative x && x ≠ .negativeZero then x else .integer 0

/-- Digits with a point behind the first one, if others follow, and an exponent. -/
def scientific (digits : List Char) (exponent : Int) : List Char :=
  let point := match digits with
    | d :: e :: rest => d :: '.' :: e :: rest
    | _ => digits
  point ++ 'e' :: (if exponent < 0 then '-' else '+') :: DecimalDigits.decimal exponent.natAbs

def naturalText (n : Nat) : List Char :=
  let digits := DecimalDigits.decimal n
  if digits.length ≤ 21 then digits
  else scientific (DecimalDigits.trimmed digits) (digits.length - 1)

def fractionText (digits places : Nat) : List Char :=
  let ds := DecimalDigits.decimal digits
  if places < ds.length then
    if ds.length - places ≤ 21 then ds.take (ds.length - places) ++ '.' :: ds.drop (ds.length - places)
    else scientific ds (ds.length - places - 1)
  else if places - ds.length < 6 then
    '0' :: '.' :: (List.replicate (places - ds.length) '0' ++ ds)
  else scientific ds (ds.length - places - 1)

/-- `String` of a number. -/
def numberText : JsNumber → String
  | .integer n => String.ofList ((if n < 0 then ['-'] else []) ++ naturalText n.natAbs)
  | .fraction negative digits places =>
    String.ofList ((if negative then ['-'] else []) ++ fractionText digits places)
  | .negativeZero => "0"
  | .nan => "NaN"
  | .infinity negative => if negative then "-Infinity" else "Infinity"

/-- The number that a text of digits denotes, as long as it is exact. -/
def digitsValue (s : String) : Option Nat :=
  if s ≠ "" ∧ s.toList.all Char.isDigit ∧ DecimalDigits.value s.toList ≤ maxSafeInteger then
    some (DecimalDigits.value s.toList)
  else none

/-- What JSON keeps of a number. -/
def writtenNumber (x : JsNumber) : JsValue :=
  if isFinite x then .number (if x = .negativeZero then .integer 0 else x) else .null

mutual

/-- What is read again of a value that has been written as JSON: properties that are
undefined are left out. -/
def written : JsValue → JsValue
  | .undefined => .undefined
  | .null => .null
  | .boolean b => .boolean b
  | .number x => writtenNumber x
  | .string s => .string s
  | .array items => .array (writtenItems items)
  | .object members => .object (writtenMembers members)

def writtenItems : List JsValue → List JsValue
  | [] => []
  | .undefined :: items => .null :: writtenItems items
  | value :: items => written value :: writtenItems items

def writtenMembers : List (String × JsValue) → List (String × JsValue)
  | [] => []
  | (_, .undefined) :: members => writtenMembers members
  | (name, value) :: members => (name, written value) :: writtenMembers members

end

theorem written_record (fields : List (String × Option JsValue))
    (h : ∀ field ∈ fields, ∀ value ∈ field.2, isUndefined value = false) :
    written (record fields) = record (fields.map fun field => (field.1, field.2.map written)) := by
  have hmembers : ∀ fields : List (String × Option JsValue),
      (∀ field ∈ fields, ∀ value ∈ field.2, isUndefined value = false) →
      writtenMembers (fields.filterMap fun field => field.2.map fun value => (field.1, value)) =
        (fields.map fun field => (field.1, field.2.map written)).filterMap
          fun field => field.2.map fun value => (field.1, value) := by
    intro fields
    induction fields with
    | nil => exact fun _ => rfl
    | cons field fields ih =>
      intro h
      have hrest := ih fun f hf => h f (List.mem_cons_of_mem _ hf)
      obtain ⟨name, value⟩ := field
      cases value with
      | none => simpa using hrest
      | some value =>
        have hvalue := h _ List.mem_cons_self value rfl
        cases value with
        | undefined => cases hvalue
        | _ => simpa [writtenMembers] using hrest
  exact congrArg JsValue.object (hmembers fields h)

/-- A value that is read again as it was written. -/
structure Kept (value : JsValue) : Prop where
  defined : isUndefined value = false
  same : written value = value

theorem kept_null : Kept .null := ⟨rfl, by rw [written]⟩

theorem kept_string (s : String) : Kept (.string s) := ⟨rfl, by rw [written]⟩

theorem kept_boolean (b : Bool) : Kept (.boolean b) := ⟨rfl, by rw [written]⟩

theorem kept_number {x : JsNumber} (hfinite : isFinite x = true) (hplain : x ≠ .negativeZero) :
    Kept (.number x) := ⟨rfl, by rw [written, writtenNumber, if_pos hfinite, if_neg hplain]⟩

theorem kept_array {items : List JsValue} (h : ∀ value ∈ items, Kept value) :
    Kept (.array items) := by
  have hitems : writtenItems items = items := by
    induction items with
    | nil => rfl
    | cons value items ih =>
      have hvalue := h value List.mem_cons_self
      rw [writtenItems, hvalue.same, ih fun v hv => h v (List.mem_cons_of_mem _ hv)]
      rintro rfl
      exact absurd hvalue.defined (by decide)
  exact ⟨rfl, by rw [written, hitems]⟩

theorem kept_record {fields : List (String × Option JsValue)}
    (h : ∀ field ∈ fields, ∀ value ∈ field.2, Kept value) : Kept (record fields) := by
  refine ⟨rfl, ?_⟩
  rw [written_record fields fun field hfield value hvalue => (h field hfield value hvalue).defined]
  congr 1
  refine (List.map_congr_left fun field hfield => ?_).trans (List.map_id _)
  obtain ⟨name, value⟩ := field
  cases value with
  | none => rfl
  | some value => exact congrArg (fun v => (name, some v)) (h _ hfield value rfl).same

@[simp] theorem isRecord_record (fields : List (String × Option JsValue)) :
    isRecord (record fields) = true := rfl

@[simp] theorem property_record_nil (name : String) : property name (record []) = .undefined := rfl

@[simp] theorem property_record_self (name : String) (value : Option JsValue)
    (fields : List (String × Option JsValue)) :
    property name (record ((name, value) :: fields)) =
      value.getD (property name (record fields)) := by
  cases value <;> simp [property, record]

theorem property_record_ne {name name' : String} (h : name' ≠ name) (value : Option JsValue)
    (fields : List (String × Option JsValue)) :
    property name (record ((name', value) :: fields)) = property name (record fields) := by
  cases value <;> simp [property, record, h]

theorem lessThan_finite {x y : JsNumber} (hx : isFinite x = true) (hy : isFinite y = true) :
    lessThan x y = decide (worth x < worth y) := by
  cases x <;> cases y <;> first | rfl | exact absurd hx Bool.false_ne_true | exact absurd hy Bool.false_ne_true

theorem worth_nonneg {x : JsNumber} (h : nonNegative x = true) : 0 ≤ worth x := by
  cases x with
  | integer n => exact Int.cast_nonneg (of_decide_eq_true h)
  | fraction negative digits places =>
    cases negative with
    | true => exact absurd h Bool.false_ne_true
    | false => exact div_nonneg (Nat.cast_nonneg _) (by positivity)
  | _ => exact le_refl _

theorem worth_nonpos {x : JsNumber} (h : nonNegative x = false) : worth x ≤ 0 := by
  cases x with
  | integer n => exact Int.cast_nonpos.2 (le_of_lt (not_le.1 (of_decide_eq_false h)))
  | fraction negative digits places =>
    cases negative with
    | true => exact div_nonpos_of_nonpos_of_nonneg (neg_nonpos.2 (Nat.cast_nonneg _)) (by positivity)
    | false => exact absurd h.symm Bool.false_ne_true
  | _ => exact le_refl _

theorem atLeastZero_finite {x : JsNumber} (h : isFinite x = true) :
    isFinite (atLeastZero x) = true ∧ nonNegative (atLeastZero x) = true ∧
      atLeastZero x ≠ .negativeZero := by
  have hzero : isFinite (.integer 0) = true ∧ nonNegative (.integer 0) = true ∧
      JsNumber.integer 0 ≠ .negativeZero := by decide
  have hx : atLeastZero x = if nonNegative x && x ≠ .negativeZero then x else .integer 0 := by
    cases x <;> first | rfl | exact absurd h Bool.false_ne_true
  rw [hx]
  split
  · next hkept =>
    rw [Bool.and_eq_true, decide_eq_true_eq] at hkept
    exact ⟨h, hkept.1, hkept.2⟩
  · exact hzero

theorem worth_atLeastZero (x : JsNumber) : worth (atLeastZero x) = max 0 (worth x) := by
  have hx : x = .nan ∨ atLeastZero x = if nonNegative x && x ≠ .negativeZero then x else .integer 0 := by
    cases x <;> first | exact .inl rfl | exact .inr rfl
  rcases hx with rfl | hx
  · rfl
  rw [hx]
  cases hsign : nonNegative x with
  | true =>
    by_cases hzero : x = .negativeZero
    · subst hzero
      rfl
    · rw [if_pos (by simp [hzero]), max_eq_right (worth_nonneg hsign)]
  | false =>
    rw [if_neg (by simp), max_eq_left (worth_nonpos hsign)]
    rfl

/-- What is not less stays so when both are raised to zero. -/
theorem atLeastZero_mono {x y : JsNumber} (hx : isFinite x = true) (hy : isFinite y = true)
    (h : lessThan x y = false) : lessThan (atLeastZero x) (atLeastZero y) = false := by
  rw [lessThan_finite hx hy, decide_eq_false_iff_not, not_lt] at h
  rw [lessThan_finite (atLeastZero_finite hx).1 (atLeastZero_finite hy).1, decide_eq_false_iff_not,
    not_lt, worth_atLeastZero, worth_atLeastZero]
  exact max_le_max le_rfl h

theorem naturalText_isDigit {n : Nat} (h : n < 10 ^ 21) : naturalText n = DecimalDigits.decimal n := by
  refine if_pos ?_
  unfold DecimalDigits.decimal
  split
  · decide
  · rw [List.length_map, List.length_reverse]
    exact (Nat.digits_length_le_iff (by decide) n).2 h

theorem digitsValue_decimal {n : Nat} (h : n ≤ maxSafeInteger) :
    digitsValue (numberText (.integer n)) = some n := by
  have hlarge : maxSafeInteger < 10 ^ 21 := by decide
  have htext : numberText (.integer n) = String.ofList (DecimalDigits.decimal n) := by
    have hsign : ¬(n : Int) < 0 := by omega
    rw [numberText, if_neg hsign, List.nil_append, Int.natAbs_natCast, naturalText_isDigit (by omega)]
  have hne : String.ofList (DecimalDigits.decimal n) ≠ "" := by
    intro heq
    rw [← String.toList_inj, String.toList_ofList] at heq
    by_cases hzero : n = 0
    · subst hzero
      exact absurd heq (by decide)
    · obtain ⟨d, ds, hds, -⟩ := DecimalDigits.decimal_spec hzero
      rw [hds] at heq
      exact absurd heq (List.cons_ne_nil _ _)
  rw [htext, digitsValue, String.toList_ofList, DecimalDigits.value_decimal, if_pos]
  exact ⟨hne, List.all_eq_true.2 (DecimalDigits.decimal_isDigit n), h⟩

end ClientValues
