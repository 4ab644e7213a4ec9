import LexiGo.ListParts

/-! Texts as parts of a URL: their bytes in UTF-8, the bytes that are escaped, and the
names and values of a query. -/
namespace UrlEncoded

/-- The bytes of a character in UTF-8. -/
def utf8 (c : Char) : List Nat :=
  let n := c.toNat
  if n < 0x80 then [n]
  else if n < 0x800 then [0xC0 + n / 64, 0x80 + n % 64]
  else if n < 0x10000 then [0xE0 + n / 4096, 0x80 + n / 64 % 64, 0x80 + n % 64]
  else [0xF0 + n / 262144, 0x80 + n / 4096 % 64, 0x80 + n / 64 % 64, 0x80 + n % 64]

/-- A character of which bytes are missing, with the bounds of the next one. -/
structure Begun where
  point : Nat
  missing : Nat
  lower : Nat
  upper : Nat

inductive Lead
  | whole (c : Char)
  | more (begun : Begun)
  | stray

/-- What a byte begins. -/
def lead (b : Nat) : Lead :=
  if b < 0x80 then .whole (Char.ofNat b)
  else if 0xC2 ≤ b ∧ b ≤ 0xDF then .more ⟨b - 0xC0, 1, 0x80, 0xBF⟩
  else if 0xE0 ≤ b ∧ b ≤ 0xEF then
    .more ⟨b - 0xE0, 2, if b = 0xE0 then 0xA0 else 0x80, if b = 0xED then 0x9F else 0xBF⟩
  else if 0xF0 ≤ b ∧ b ≤ 0xF4 then
    .more ⟨b - 0xF0, 3, if b = 0xF0 then 0x90 else 0x80, if b = 0xF4 then 0x8F else 0xBF⟩
  else .stray

/-- `none` stands for bytes that are no character. -/
def start (b : Nat) : List (Option Char) × Option Begun :=
  match lead b with
  | .whole c => ([some c], none)
  | .more begun => ([], some begun)
  | .stray => ([none], none)

/-- A byte out of its bounds ends what was begun and is read again. -/
def step : Option Begun → Nat → List (Option Char) × Option Begun
  | none, b => start b
  | some begun, b =>
    if begun.lower ≤ b ∧ b ≤ begun.upper then
      let point := begun.point * 64 + (b - 0x80)
      if begun.missing = 1 then ([some (Char.ofNat point)], none)
      else ([], some ⟨point, begun.missing - 1, 0x80, 0xBF⟩)
    else (none :: (start b).1, (start b).2)

def decode : Option Begun → List Nat → List (Option Char)
  | none, [] => []
  | some _, [] => [none]
  | begun, b :: rest => (step begun b).1 ++ decode (step begun b).2 rest

def hexDigit (n : Nat) : Char := "0123456789ABCDEF".toList.getD n '0'

def hexValue (c : Char) : Option Nat :=
  if '0' ≤ c ∧ c ≤ '9' then some (c.toNat - 48)
  else if 'A' ≤ c ∧ c ≤ 'F' then some (c.toNat - 55)
  else if 'a' ≤ c ∧ c ≤ 'f' then some (c.toNat - 87)
  else none

def escape (b : Nat) : List Char := ['%', hexDigit (b / 16), hexDigit (b % 16)]

def encodeWith (keep : Char → Bool) (c : Char) : List Char :=
  if keep c then [c] else (utf8 c).flatMap escape

/-- The bytes of a text with its escapes; a percent sign that begins none stands for itself. -/
def percentDecode : List Char → List Nat
  | '%' :: h :: l :: rest =>
    match hexValue h, hexValue l with
    | some a, some b => (a * 16 + b) :: percentDecode rest
    | _, _ => 0x25 :: percentDecode (h :: l :: rest)
  | c :: rest => utf8 c ++ percentDecode rest
  | [] => []

/-- The same, where every percent sign has to begin an escape. -/
def unescape : List Char → Option (List Nat)
  | '%' :: h :: l :: rest =>
    match hexValue h, hexValue l with
    | some a, some b => (unescape rest).map ((a * 16 + b) :: ·)
    | _, _ => none
  | c :: rest => if c = '%' then none else (unescape rest).map (utf8 c ++ ·)
  | [] => some []

/-- The letters, the digits and the marks that `encodeURIComponent` leaves as they are. -/
def unreserved (c : Char) : Bool :=
  c.isAlphanum || c = '-' || c = '_' || c = '.' || c = '!' || c = '~' || c = '*' ||
    c = '\'' || c = '(' || c = ')'

def encodeURIComponent (s : String) : String :=
  String.ofList (s.toList.flatMap (encodeWith unreserved))

def decodeURIComponent (s : String) : Option String :=
  ((unescape s.toList).bind fun bytes => (decode none bytes).mapM id).map String.ofList

/-- What a form leaves as it is, spaces apart. -/
def formKept (c : Char) : Bool := c.isAlphanum || c = '-' || c = '_' || c = '.' || c = '*'

def formEncode (s : String) : List Char :=
  s.toList.flatMap fun c => if c = ' ' then ['+'] else encodeWith formKept c

def formDecode (text : List Char) : String :=
  String.ofList ((decode none (percentDecode (text.map fun c => if c = '+' then ' ' else c))).map
    fun c => c.getD '\uFFFD')

def pair (part : List Char) : String × String :=
  (formDecode (part.takeWhile (· ≠ '=')), formDecode ((part.dropWhile (· ≠ '=')).drop 1))

/-- The names and values of a query, without its question mark. -/
def parseQuery (text : List Char) : List (String × String) :=
  ((text.splitOn '&').filter (· ≠ [])).map pair

def formPair (nameValue : String × String) : List Char :=
  formEncode nameValue.1 ++ '=' :: formEncode nameValue.2

def serialize (pairs : List (String × String)) : List Char :=
  ['&'].intercalate (pairs.map formPair)

theorem serialize_singleton (nameValue : String × String) :
    serialize [nameValue] = formPair nameValue := by
  rw [serialize, List.map_singleton, List.intercalate_singleton]

theorem char_ofNat {n : Nat} (c : Char) (h : n = c.toNat) : Char.ofNat n = c := by
  rw [h, Char.ofNat_toNat]

/-- The bytes of a character are read as that character, whatever follows. -/
theorem decode_utf8 (c : Char) (rest : List Nat) :
    decode none (utf8 c ++ rest) = some c :: decode none rest := by
  have hvalid : c.toNat < 0xD800 ∨ 0xDFFF < c.toNat ∧ c.toNat < 0x110000 := c.valid
  unfold utf8
  by_cases h1 : c.toNat < 0x80
  · rw [if_pos h1]
    simp [decode, step, start, lead, h1]
  rw [if_neg h1]
  by_cases h2 : c.toNat < 0x800
  · rw [if_pos h2]
    have hlead : lead (0xC0 + c.toNat / 64) = .more ⟨c.toNat / 64, 1, 0x80, 0xBF⟩ := by
      unfold lead
      rw [if_neg (by omega), if_pos (by omega), Nat.add_sub_cancel_left]
    have hin : 0x80 ≤ 0x80 + c.toNat % 64 ∧ 0x80 + c.toNat % 64 ≤ 0xBF := by omega
    have hpoint : Char.ofNat (c.toNat / 64 * 64 + c.toNat % 64) = c :=
      char_ofNat c (by omega)
    simp [decode, step, start, hlead, hin, hpoint]
  rw [if_neg h2]
  by_cases h3 : c.toNat < 0x10000
  · rw [if_pos h3]
    obtain ⟨lower, upper, hlead, hin⟩ : ∃ lower upper,
        lead (0xE0 + c.toNat / 4096) = .more ⟨c.toNat / 4096, 2, lower, upper⟩ ∧
          lower ≤ 0x80 + c.toNat / 64 % 64 ∧ 0x80 + c.toNat / 64 % 64 ≤ upper := by
      unfold lead
      rw [if_neg (by omega), if_neg (by omega), if_pos (by omega), Nat.add_sub_cancel_left]
      refine ⟨_, _, rfl, ?_, ?_⟩ <;> split <;> omega
    have hlast : 0x80 ≤ 0x80 + c.toNat % 64 ∧ 0x80 + c.toNat % 64 ≤ 0xBF := by omega
    have hpoint : Char.ofNat ((c.toNat / 4096 * 64 + c.toNat / 64 % 64) * 64 + c.toNat % 64) = c :=
      char_ofNat c (by omega)
    simp [decode, step, start, hlead, hin, hlast, hpoint]
  · rw [if_neg h3]
    obtain ⟨lower, upper, hlead, hin⟩ : ∃ lower upper,
        lead (0xF0 + c.toNat / 262144) = .more ⟨c.toNat / 262144, 3, lower, upper⟩ ∧
          lower ≤ 0x80 + c.toNat / 4096 % 64 ∧ 0x80 + c.toNat / 4096 % 64 ≤ upper := by
      unfold lead
      rw [if_neg (by omega), if_neg (by omega), if_neg (by omega), if_pos (by omega),
        Nat.add_sub_cancel_left]
      refine ⟨_, _, rfl, ?_, ?_⟩ <;> split <;> omega
    have hthird : 0x80 ≤ 0x80 + c.toNat / 64 % 64 ∧ 0x80 + c.toNat / 64 % 64 ≤ 0xBF := by omega
    have hlast : 0x80 ≤ 0x80 + c.toNat % 64 ∧ 0x80 + c.toNat % 64 ≤ 0xBF := by omega
    have hpoint : Char.ofNat (((c.toNat / 262144 * 64 + c.toNat / 4096 % 64) * 64 +
        c.toNat / 64 % 64) * 64 + c.toNat % 64) = c := char_ofNat c (by omega)
    simp [decode, step, start, hlead, hin, hthird, hlast, hpoint]

theorem decode_text (l : List Char) : decode none (l.flatMap utf8) = l.map some := by
  induction l with
  | nil => rfl
  | cons c l ih => rw [List.flatMap_cons, decode_utf8, ih, List.map_cons]

theorem utf8_byte (c : Char) : ∀ b ∈ utf8 c, b < 256 := by
  have hvalid : c.toNat < 0xD800 ∨ 0xDFFF < c.toNat ∧ c.toNat < 0x110000 := c.valid
  intro b hb
  dsimp only [utf8] at hb
  split_ifs at hb <;> simp only [List.mem_cons, List.not_mem_nil, or_false] at hb <;> omega

theorem hexValue_hexDigit {n : Nat} (h : n < 16) : hexValue (hexDigit n) = some n := by
  have hall : ∀ n ∈ List.range 16, hexValue (hexDigit n) = some n := by decide
  exact hall n (List.mem_range.2 h)

theorem hexDigit_alphanum (n : Nat) : (hexDigit n).isAlphanum = true := by
  by_cases h : n < 16
  · have hall : ∀ n ∈ List.range 16, (hexDigit n).isAlphanum = true := by decide
    exact hall n (List.mem_range.2 h)
  · have hlong : "0123456789ABCDEF".toList.length ≤ n := by
      change 16 ≤ n
      omega
    unfold hexDigit
    rw [List.getD_eq_getElem?_getD, List.getElem?_eq_none hlong]
    rfl

theorem percentDecode_escape {b : Nat} (h : b < 256) (rest : List Char) :
    percentDecode (escape b ++ rest) = b :: percentDecode rest := by
  have hhigh : b / 16 < 16 := by omega
  have hlow : b % 16 < 16 := by omega
  have hb : b / 16 * 16 + b % 16 = b := by omega
  simp [escape, percentDecode, hexValue_hexDigit hhigh, hexValue_hexDigit hlow, hb]

theorem unescape_escape {b : Nat} (h : b < 256) (rest : List Char) :
    unescape (escape b ++ rest) = (unescape rest).map (b :: ·) := by
  have hhigh : b / 16 < 16 := by omega
  have hlow : b % 16 < 16 := by omega
  have hb : b / 16 * 16 + b % 16 = b := by omega
  simp [escape, unescape, hexValue_hexDigit hhigh, hexValue_hexDigit hlow, hb]

theorem percentDecode_plain {c : Char} (h : c ≠ '%') (rest : List Char) :
    percentDecode (c :: rest) = utf8 c ++ percentDecode rest := by
  rw [percentDecode]
  rintro a b l rfl
  exact absurd rfl h

theorem unescape_plain {c : Char} (h : c ≠ '%') (rest : List Char) :
    unescape (c :: rest) = (unescape rest).map (utf8 c ++ ·) := by
  rw [unescape, if_neg h]
  rintro a b l rfl
  exact absurd rfl h

section Encoding
variable {keep : Char → Bool} (hkeep : keep '%' = false)
include hkeep

theorem percentDecode_encode (l rest : List Char) :
    percentDecode (l.flatMap (encodeWith keep) ++ rest) = l.flatMap utf8 ++ percentDecode rest := by
  have escapes : ∀ bytes : List Nat, (∀ b ∈ bytes, b < 256) → ∀ rest,
      percentDecode (bytes.flatMap escape ++ rest) = bytes ++ percentDecode rest := by
    intro bytes
    induction bytes with
    | nil => exact fun _ _ => rfl
    | cons b bytes ih =>
      intro hbytes rest
      rw [List.flatMap_cons, List.append_assoc, percentDecode_escape (hbytes b List.mem_cons_self),
        ih (fun x hx => hbytes x (List.mem_cons_of_mem _ hx)), List.cons_append]
  induction l with
  | nil => rfl
  | cons c l ih =>
    rw [List.flatMap_cons, List.flatMap_cons, List.append_assoc, List.append_assoc, ← ih, encodeWith]
    by_cases hc : keep c = true
    · rw [if_pos hc, List.singleton_append, percentDecode_plain]
      rintro rfl
      rw [hkeep] at hc
      cases hc
    · rw [if_neg hc, escapes _ (utf8_byte c)]

theorem unescape_encode (l : List Char) :
    unescape (l.flatMap (encodeWith keep)) = some (l.flatMap utf8) := by
  have escapes : ∀ bytes : List Nat, (∀ b ∈ bytes, b < 256) → ∀ rest,
      unescape (bytes.flatMap escape ++ rest) = (unescape rest).map (bytes ++ ·) := by
    intro bytes
    induction bytes with
    | nil => exact fun _ rest => by simp
    | cons b bytes ih =>
      intro hbytes rest
      rw [List.flatMap_cons, List.append_assoc, unescape_escape (hbytes b List.mem_cons_self),
        ih (fun x hx => hbytes x (List.mem_cons_of_mem _ hx)), Option.map_map]
      rfl
  induction l with
  | nil => rfl
  | cons c l ih =>
    rw [List.flatMap_cons, List.flatMap_cons, encodeWith]
    by_cases hc : keep c = true
    · rw [if_pos hc, List.singleton_append, unescape_plain, ih, Option.map_some]
      rintro rfl
      rw [hkeep] at hc
      cases hc
    · rw [if_neg hc, escapes _ (utf8_byte c), ih, Option.map_some]

omit hkeep in
/-- What an encoded text consists of. -/
theorem mem_encode {l : List Char} {c : Char} (h : c ∈ l.flatMap (encodeWith keep)) :
    keep c = true ∨ c = '%' ∨ c.isAlphanum = true := by
  obtain ⟨d, -, hc⟩ := List.mem_flatMap.1 h
  unfold encodeWith at hc
  split at hc
  · next hd =>
    rw [List.mem_singleton.1 hc]
    exact .inl hd
  · obtain ⟨b, -, hc⟩ := List.mem_flatMap.1 hc
    simp only [escape, List.mem_cons, List.not_mem_nil, or_false] at hc
    rcases hc with rfl | rfl | rfl
    · exact .inr (.inl rfl)
    · exact .inr (.inr (hexDigit_alphanum _))
    · exact .inr (.inr (hexDigit_alphanum _))

end Encoding

/-- A component is read back as it was. -/
theorem decodeURIComponent_encode (s : String) :
    decodeURIComponent (encodeURIComponent s) = some s := by
  have hall : ∀ l : List Char, (l.map some).mapM id = some l := by
    intro l
    induction l with
    | nil => rfl
    | cons c l ih =>
      rw [List.map_cons, List.mapM_cons, ih]
      rfl
  unfold decodeURIComponent encodeURIComponent
  rw [String.toList_ofList, unescape_encode (by decide), Option.bind_some, decode_text, hall,
    Option.map_some, String.ofList_toList]

theorem formDecode_encode (s : String) : formDecode (formEncode s) = s := by
  have hplus : ∀ l : List Char,
      percentDecode ((l.flatMap fun c => if c = ' ' then ['+'] else encodeWith formKept c).map
        fun c => if c = '+' then ' ' else c) = l.flatMap utf8 := by
    intro l
    induction l with
    | nil => rfl
    | cons c l ih =>
      rw [List.flatMap_cons, List.map_append, List.flatMap_cons]
      by_cases hc : c = ' '
      · subst hc
        rw [if_pos rfl, ← ih]
        exact percentDecode_plain (by decide) _
      · have hsame : (encodeWith formKept c).map (fun c => if c = '+' then ' ' else c) =
            [c].flatMap (encodeWith formKept) := by
          rw [List.flatMap_singleton]
          refine (List.map_congr_left fun d hd => ?_).trans (List.map_id _)
          have hd' : d ∈ [c].flatMap (encodeWith formKept) := by rwa [List.flatMap_singleton]
          refine if_neg ?_
          rintro rfl
          rcases mem_encode hd' with h | h | h
          · exact absurd h (by decide)
          · exact absurd h (by decide)
          · exact absurd h (by decide)
        rw [if_neg hc, hsame, percentDecode_encode (by decide), ih, List.flatMap_singleton]
  unfold formDecode formEncode
  rw [hplus, decode_text, List.map_map]
  have hid : ((fun c : Option Char => c.getD '\uFFFD') ∘ some) = id := rfl
  rw [hid, List.map_id, String.ofList_toList]

theorem mem_formEncode {s : String} {c : Char} (h : c ∈ formEncode s) :
    formKept c = true ∨ c = '%' ∨ c = '+' := by
  obtain ⟨d, hd, hc⟩ := List.mem_flatMap.1 h
  split at hc
  · exact .inr (.inr (List.mem_singleton.1 hc))
  · have hone : c ∈ [d].flatMap (encodeWith formKept) := by rwa [List.flatMap_singleton]
    rcases mem_encode hone with hkept | hpercent | halpha
    · exact .inl hkept
    · exact .inr (.inl hpercent)
    · exact .inl (by simp [formKept, halpha])

theorem formEncode_free {s : String} {c : Char} (hkept : formKept c = false) (hpercent : c ≠ '%')
    (hplus : c ≠ '+') : c ∉ formEncode s := by
  intro h
  rcases mem_formEncode h with h | h | h
  · rw [hkept] at h
    cases h
  · exact hpercent h
  · exact hplus h

theorem pair_formPair (nameValue : String × String) : pair (formPair nameValue) = nameValue := by
  have hname : ∀ c ∈ formEncode nameValue.1, (decide (c ≠ '=')) = true := by
    intro c hc
    refine decide_eq_true fun heq => ?_
    subst heq
    exact formEncode_free (by decide) (by decide) (by decide) hc
  have htake : (formPair nameValue).takeWhile (· ≠ '=') = formEncode nameValue.1 := by
    unfold formPair
    rw [List.takeWhile_append_of_pos hname]
    simp
  have hdrop : (formPair nameValue).dropWhile (· ≠ '=') = '=' :: formEncode nameValue.2 := by
    unfold formPair
    rw [List.dropWhile_append_of_pos hname]
    simp
  unfold pair
  rw [htake, hdrop, List.drop_one, List.tail_cons, formDecode_encode, formDecode_encode]

/-- A query is read back as it was. -/
theorem parseQuery_serialize (pairs : List (String × String)) :
    parseQuery (serialize pairs) = pairs := by
  have hnonempty : ∀ part ∈ pairs.map formPair, part ≠ [] := by
    rintro part hpart rfl
    obtain ⟨nameValue, -, heq⟩ := List.mem_map.1 hpart
    exact List.append_ne_nil_of_right_ne_nil _ (List.cons_ne_nil _ _) heq
  have hfree : ∀ part ∈ pairs.map formPair, '&' ∉ part := by
    rintro part hpart hmem
    obtain ⟨nameValue, -, rfl⟩ := List.mem_map.1 hpart
    rcases List.mem_append.1 hmem with h | h
    · exact formEncode_free (by decide) (by decide) (by decide) h
    · rcases List.mem_cons.1 h with h | h
      · exact absurd h (by decide)
      · exact formEncode_free (by decide) (by decide) (by decide) h
  have hback : (pairs.map formPair).map pair = pairs := by
    rw [List.map_map]
    exact (List.map_congr_left fun nameValue _ => pair_formPair nameValue).trans (List.map_id _)
  unfold parseQuery serialize
  by_cases hnone : pairs = []
  · subst hnone
    rfl
  · rw [List.splitOn_intercalate _ hfree (by simpa using hnone),
      List.filter_eq_self.2 (fun part hpart => decide_eq_true (hnonempty part hpart)), hback]

end UrlEncoded
