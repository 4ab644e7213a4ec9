import Mathlib.Data.List.Basic

/-! The texts of JSON as a decoder reads them: a value of any kind, with its numbers and
strings as they are written. -/
namespace JsonText

inductive Value
  | null
  | bool (b : Bool)
  | number (literal : List Char)
  | string (raw : List Char)
  | array (items : List Value)
  | object (members : List (List Char × Value))

def isBlank (c : Char) : Bool := c = ' ' || c = '\t' || c = '\n' || c = '\r'

def skip (text : List Char) : List Char := text.dropWhile isBlank

def isHex (c : Char) : Bool :=
  c.isDigit || ('a' ≤ c && c ≤ 'f') || ('A' ≤ c && c ≤ 'F')

/-- The rest of a string from behind its first quote on: what is in it, and what follows. -/
def string : List Char → Option (List Char × List Char)
  | [] => none
  | '"' :: rest => some ([], rest)
  | '\\' :: 'u' :: a :: b :: c :: d :: rest =>
    if isHex a && isHex b && isHex c && isHex d then
      (string rest).map fun (raw, rest) => ('\\' :: 'u' :: a :: b :: c :: d :: raw, rest)
    else none
  | '\\' :: c :: rest =>
    if c ∈ ['"', '\\', '/', 'b', 'f', 'n', 'r', 't'] then
      (string rest).map fun (raw, rest) => ('\\' :: c :: raw, rest)
    else none
  | c :: rest =>
    if c.toNat < 32 ∨ c = '\\' then none
    else (string rest).map fun (raw, rest) => (c :: raw, rest)

/-- Digits, of which there is at least one. -/
def digits (text : List Char) : Option (List Char × List Char) :=
  if (text.takeWhile Char.isDigit).isEmpty then none
  else some (text.takeWhile Char.isDigit, text.dropWhile Char.isDigit)

def whole : List Char → Option (List Char × List Char)
  | '0' :: rest => some (['0'], rest)
  | text => digits text

def fraction : List Char → Option (List Char × List Char)
  | '.' :: rest => (digits rest).map fun (ds, rest) => ('.' :: ds, rest)
  | text => some ([], text)

def exponent : List Char → Option (List Char × List Char)
  | e :: rest =>
    if e = 'e' ∨ e = 'E' then
      match rest with
      | s :: rest' =>
        if s = '+' ∨ s = '-' then (digits rest').map fun (ds, rest) => (e :: s :: ds, rest)
        else (digits rest).map fun (ds, rest) => (e :: ds, rest)
      | [] => none
    else some ([], e :: rest)
  | [] => some ([], [])

def unsigned (text : List Char) : Option (List Char × List Char) := do
  let (n, rest) ← whole text
  let (f, rest) ← fraction rest
  let (e, rest) ← exponent rest
  return (n ++ f ++ e, rest)

def number : List Char → Option (List Char × List Char)
  | '-' :: rest => (unsigned rest).map fun (n, rest) => ('-' :: n, rest)
  | text => unsigned text

mutual

/-- A value, and what follows it. -/
def value : Nat → List Char → Option (Value × List Char)
  | 0, _ => none
  | fuel + 1, text =>
    match skip text with
    | '"' :: rest => (string rest).map fun (raw, rest) => (.string raw, rest)
    | '{' :: rest =>
      match skip rest with
      | '}' :: rest => some (.object [], rest)
      | rest => (members fuel rest).map fun (members, rest) => (.object members, rest)
    | '[' :: rest =>
      match skip rest with
      | ']' :: rest => some (.array [], rest)
      | rest => (items fuel rest).map fun (items, rest) => (.array items, rest)
    | 'n' :: 'u' :: 'l' :: 'l' :: rest => some (.null, rest)
    | 't' :: 'r' :: 'u' :: 'e' :: rest => some (.bool true, rest)
    | 'f' :: 'a' :: 'l' :: 's' :: 'e' :: rest => some (.bool false, rest)
    | text => (number text).map fun (literal, rest) => (.number literal, rest)

def items : Nat → List Char → Option (List Value × List Char)
  | 0, _ => none
  | fuel + 1, text =>
    match value fuel text with
    | none => none
    | some (first, rest) =>
      match skip rest with
      | ',' :: rest => (items fuel rest).map fun (others, rest) => (first :: others, rest)
      | ']' :: rest => some ([first], rest)
      | _ => none

def members : Nat → List Char → Option (List (List Char × Value) × List Char)
  | 0, _ => none
  | fuel + 1, text =>
    match skip text with
    | '"' :: rest =>
      match string rest with
      | none => none
      | some (name, rest) =>
        match skip rest with
        | ':' :: rest =>
          match value fuel rest with
          | none => none
          | some (first, rest) =>
            match skip rest with
            | ',' :: rest =>
              (members fuel rest).map fun (others, rest) => ((name, first) :: others, rest)
            | '}' :: rest => some ([(name, first)], rest)
            | _ => none
        | _ => none
    | _ => none

end

/-- A whole text: one value and blanks. For each character there are at most two calls. -/
def document (text : List Char) : Option Value :=
  (value (2 * text.length + 2) text).bind fun (v, rest) => if skip rest = [] then some v else none

def hexValue (c : Char) : Nat :=
  if c.isDigit then c.toNat - 48 else if c.isUpper then c.toNat - 55 else c.toNat - 87

/-- A string with its escapes resolved. -/
def unquote : List Char → List Char
  | '\\' :: 'u' :: a :: b :: c :: d :: rest =>
    Char.ofNat (4096 * hexValue a + 256 * hexValue b + 16 * hexValue c + hexValue d) :: unquote rest
  | '\\' :: c :: rest =>
    (if c = 'b' then '\x08' else if c = 'f' then '\x0c' else if c = 'n' then '\n'
      else if c = 'r' then '\r' else if c = 't' then '\t' else c) :: unquote rest
  | c :: rest => c :: unquote rest
  | [] => []

section Reading

/-- A string without a quote, a backslash or a control character is read as it is. -/
theorem string_plain {raw : List Char}
    (h : ∀ c ∈ raw, c ≠ '"' ∧ c ≠ '\\' ∧ 32 ≤ c.toNat) (rest : List Char) :
    string (raw ++ '"' :: rest) = some (raw, rest) := by
  induction raw with
  | nil => simp [string]
  | cons c raw ih =>
    obtain ⟨hquote, hback, hcontrol⟩ := h c List.mem_cons_self
    have hrest := ih fun d hd => h d (List.mem_cons_of_mem _ hd)
    rw [List.cons_append, string]
    · rw [if_neg (by simp [hback]; omega), hrest]
      rfl
    all_goals simp_all

theorem takeWhile_digits {ds : List Char} (h : ∀ c ∈ ds, c.isDigit = true) {c : Char}
    (hc : c.isDigit = false) (rest : List Char) :
    (ds ++ c :: rest).takeWhile Char.isDigit = ds ∧
      (ds ++ c :: rest).dropWhile Char.isDigit = c :: rest := by
  constructor
  · rw [List.takeWhile_append_of_pos h, List.takeWhile_cons_of_neg (by simp [hc]), List.append_nil]
  · rw [List.dropWhile_append_of_pos h, List.dropWhile_cons_of_neg (by simp [hc])]

/-- A number of digits alone, the first of which is not a zero. -/
theorem number_plain {d : Char} {ds : List Char} (hfirst : d ≠ '0')
    (h : ∀ c ∈ d :: ds, c.isDigit = true) (rest : List Char) :
    number (d :: ds ++ '}' :: rest) = some (d :: ds, '}' :: rest) := by
  have hd := h d List.mem_cons_self
  have hminus : d ≠ '-' := by
    rintro rfl
    cases hd
  have hdigits : digits (d :: ds ++ '}' :: rest) = some (d :: ds, '}' :: rest) := by
    obtain ⟨htake, hdrop⟩ := @takeWhile_digits (d :: ds) h '}' (by decide) rest
    rw [digits, htake, hdrop]
    rfl
  have hunsigned : unsigned (d :: ds ++ '}' :: rest) = some (d :: ds, '}' :: rest) := by
    have hwhole : whole (d :: ds ++ '}' :: rest) = some (d :: ds, '}' :: rest) := by
      rw [← hdigits, List.cons_append, whole]
      simp [hfirst]
    unfold unsigned
    rw [hwhole]
    simp [fraction, exponent]
  rw [← hunsigned, List.cons_append, number]
  simp [hminus]

theorem skip_cons {c : Char} (h : isBlank c = false) (rest : List Char) : skip (c :: rest) = c :: rest :=
  List.dropWhile_cons_of_neg (by simp [h])

theorem value_string {raw : List Char} (h : ∀ c ∈ raw, c ≠ '"' ∧ c ≠ '\\' ∧ 32 ≤ c.toNat)
    (fuel : Nat) (rest : List Char) :
    value (fuel + 1) ('"' :: (raw ++ '"' :: rest)) = some (.string raw, rest) := by
  simp [value, skip_cons, isBlank, string_plain h]

theorem value_number {d : Char} {ds : List Char} (hfirst : d ≠ '0')
    (h : ∀ c ∈ d :: ds, c.isDigit = true) (fuel : Nat) (rest : List Char) :
    value (fuel + 1) (d :: ds ++ '}' :: rest) = some (.number (d :: ds), '}' :: rest) := by
  have hdigit := h d List.mem_cons_self
  have hne : ∀ c : Char, c.isDigit = false → d ≠ c := by
    rintro c hc rfl
    rw [hdigit] at hc
    cases hc
  have hblank : isBlank d = false := by
    simp [isBlank, hne]
  rw [value, List.cons_append, skip_cons hblank]
  split <;> rename_i heq
  case h_7 =>
    rw [← List.cons_append, number_plain hfirst h]
    rfl
  all_goals exact absurd (List.cons.inj heq).1 (hne _ (by decide))

variable {fuel : Nat} {text name body rest : List Char} {v : Value}

theorem members_cons (hname : string text = some (name, ':' :: body))
    (hv : value fuel body = some (v, ',' :: rest)) :
    members (fuel + 1) ('"' :: text) =
      (members fuel rest).map fun (others, rest) => ((name, v) :: others, rest) := by
  simp [members, skip_cons, isBlank, hname, hv]

theorem members_last (hname : string text = some (name, ':' :: body))
    (hv : value fuel body = some (v, '}' :: rest)) :
    members (fuel + 1) ('"' :: text) = some ([(name, v)], rest) := by
  simp [members, skip_cons, isBlank, hname, hv]

theorem value_object (fuel : Nat) (text : List Char) :
    value (fuel + 1) ('{' :: '"' :: text) =
      (members fuel ('"' :: text)).map fun (members, rest) => (.object members, rest) := by
  simp [value, skip_cons, isBlank]

theorem document_of_value {k : Nat} (hk : k ≤ 2 * text.length + 2)
    (h : ∀ fuel, value (fuel + k) text = some (v, [])) : document text = some v := by
  unfold document
  rw [← Nat.sub_add_cancel hk, h]
  rfl

end Reading

end JsonText
