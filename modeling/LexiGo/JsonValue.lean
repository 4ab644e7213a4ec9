import Mathlib.Data.List.Basic

/-! The texts of JSON, as far as the reader of one language or another can tell them
apart: an object keeps its members in their order, also those of one name. -/
namespace JsonValue

/-- A number is written without a fraction or an exponent, or else what counts is
whether the double it is read as is a whole number. -/
inductive Json
  | null
  | bool (b : Bool)
  | integer (n : Int)
  | decimal (whole : Option Int)
  | string (s : String)
  | array (items : List Json)
  | object (members : List (String × Json))

/-- `Number.isSafeInteger`, and the integer. -/
def safeInteger : Json → Option Int
  | .integer n => if -9007199254740991 ≤ n ∧ n ≤ 9007199254740991 then some n else none
  | .decimal (some n) => if -9007199254740991 ≤ n ∧ n ≤ 9007199254740991 then some n else none
  | _ => none

def text : Json → Option String
  | .string s => some s
  | _ => none

def boolean : Json → Option Bool
  | .bool b => some b
  | _ => none

/-- What `JSON.parse` keeps under a name: the last member that has it. -/
def member (name : String) : List (String × Json) → Option Json
  | [] => none
  | (name', value) :: rest =>
    (member name rest).or (if name' = name then some value else none)

/-- A field that may be left out has a value of its own kind otherwise; `null` is none. -/
def optional {α : Type} (f : Json → Option α) : Option Json → Option (Option α)
  | none => some none
  | some value => (f value).map some

end JsonValue
