import LexiGo.ListParts
import LexiGo.Moderation.ModerationRepository
import LexiGo.Text.Base64Url
import LexiGo.Text.JsonText
import LexiGo.Text.Timestamp

/-! The text by which a listing says where the next page begins, and what a request reads
from such a text. -/
namespace CursorText
open CivilTime DecimalDigits Timestamp ModerationRepository
open Scheduler (Instant)

/-- How many minutes the clock of the host is ahead, whole minutes as a text has them. -/
structure Zone where
  ahead : Instant → Int
  bound : ∀ t, (ahead t).natAbs < 1440

def Zone.utc : Zone := ⟨fun _ => 0, fun _ => by decide⟩

/-- `json.Marshal(cursor)` -/
def marshal (zone : Zone) (cursor : Cursor) : Option (List Char) :=
  (format (zone.ahead cursor.createdAt) cursor.createdAt).map fun time =>
    "\x7b\"createdAt\":\"".toList ++ (time ++ ("\",\"id\":".toList ++ (decimal cursor.id ++ ['}'])))

def encodeCursor (zone : Zone) (cursor : Cursor) : Option (List Char) :=
  (marshal zone cursor).map fun json => Base64Url.encode (json.map Char.toNat)

/-- `strconv.ParseInt` of the literal of a number -/
def readInt : List Char → Option Int
  | '-' :: ds =>
    if ds ≠ [] ∧ ds.all Char.isDigit ∧ value ds ≤ 2 ^ 63 then some (-(value ds : Int)) else none
  | ds => if ds ≠ [] ∧ ds.all Char.isDigit ∧ value ds < 2 ^ 63 then some (value ds) else none

/-- The fields as far as they have been read; `none` is the zero time. -/
structure Fields where
  createdAt : Option Instant := none
  id : Int := 0

def readCreatedAt (fields : Fields) : JsonText.Value → Option Fields
  | .null => some fields
  | .string raw => (parse raw).map fun t => { fields with createdAt := some t }
  | _ => none

def readId (fields : Fields) : JsonText.Value → Option Fields
  | .null => some fields
  | .number literal => (readInt literal).map fun n => { fields with id := n }
  | _ => none

/-- Names match in whatever case, the last member of a name counts, and a null changes
nothing. -/
def readMember (fields : Fields) (name : List Char) (v : JsonText.Value) : Option Fields :=
  if (JsonText.unquote name).map Char.toLower = "createdat".toList then readCreatedAt fields v
  else if (JsonText.unquote name).map Char.toLower = "id".toList then readId fields v
  else some fields

/-- `time.Time{}` -/
def zeroTime : Instant := 86400 * (daysBefore 401 - epoch) * 1000000000

def Fields.accepted (fields : Fields) : Option Cursor :=
  match fields.createdAt with
  | none => none
  | some createdAt =>
    if fields.id ≤ 0 ∨ createdAt = zeroTime then none else some ⟨createdAt, fields.id.toNat⟩

/-- `json.Unmarshal(raw, &cursor)`, and what the code checks of it. -/
def unmarshal (json : List Char) : Option Cursor :=
  match JsonText.document json with
  | some (.object members) =>
    (members.foldlM (fun fields member => readMember fields member.1 member.2) {}).bind
      Fields.accepted
  | _ => none

def decodeCursor (text : List Char) : Option Cursor :=
  (Base64Url.decode text).bind fun bytes => unmarshal (bytes.map Char.ofNat)

section RoundTrip

variable {zone : Zone} {cursor : Cursor} {text : List Char}

theorem document_marshal {time : List Char} (htime : Plain time) {d : Char} {ds : List Char}
    (hd : d ≠ '0') (hds : ∀ c ∈ d :: ds, c.isDigit = true) :
    JsonText.document ("\x7b\"createdAt\":\"".toList ++
      (time ++ ("\",\"id\":".toList ++ (d :: ds ++ ['}'])))) =
      some (.object [("createdAt".toList, .string time), ("id".toList, .number (d :: ds))]) := by
  have hplain : ∀ c ∈ time, c ≠ '"' ∧ c ≠ '\\' ∧ 32 ≤ c.toNat :=
    fun c hc => ⟨(htime c hc).1, (htime c hc).2.1, (htime c hc).2.2.1⟩
  have hcreated := @JsonText.string_plain "createdAt".toList (ListParts.forall_of_all (by decide))
  have hid := @JsonText.string_plain "id".toList (ListParts.forall_of_all (by decide))
  have hopen : "\x7b\"createdAt\":\"".toList =
      '{' :: '"' :: ("createdAt".toList ++ ['"', ':', '"']) := by decide
  have hnext : "\",\"id\":".toList = '"' :: ',' :: '"' :: ("id".toList ++ ['"', ':']) := by decide
  have hshape : "\x7b\"createdAt\":\"".toList ++ (time ++ ("\",\"id\":".toList ++ (d :: ds ++ ['}']))) =
      '{' :: '"' :: ("createdAt".toList ++ '"' :: ':' :: '"' :: (time ++ '"' :: ',' :: '"' ::
        ("id".toList ++ '"' :: ':' :: (d :: ds ++ ['}'])))) := by
    rw [hopen, hnext]
    simp only [List.cons_append, List.append_assoc, List.nil_append]
  rw [hshape]
  refine JsonText.document_of_value (show 4 ≤ _ by simp only [List.length_cons]; omega) fun fuel => ?_
  rw [JsonText.value_object, JsonText.members_cons (hcreated _) (JsonText.value_string hplain _ _),
    JsonText.members_last (hid _) (JsonText.value_number hd hds _ _)]
  rfl

theorem readInt_decimal {n : Nat} (hmax : n < 2 ^ 63) {d : Char} {ds : List Char}
    (h : decimal n = d :: ds) (hds : ∀ c ∈ d :: ds, c.isDigit = true) :
    readInt (d :: ds) = some (n : Int) := by
  have hvalue := value_decimal n
  have hminus : d ≠ '-' := by
    rintro rfl
    exact absurd (hds _ List.mem_cons_self) (by decide)
  rw [h] at hvalue
  unfold readInt
  split
  · rename_i heq
    exact absurd (List.cons.inj heq).1 hminus
  · rw [hvalue, if_pos ⟨by simp, List.all_eq_true.2 hds, hmax⟩]

theorem zeroTime_neg : zeroTime < 0 := by decide

theorem unmarshal_marshal (hid : 0 < cursor.id) (hmax : cursor.id < 2 ^ 63)
    (htime : 0 ≤ cursor.createdAt) {json : List Char} (h : marshal zone cursor = some json) :
    unmarshal json = some cursor := by
  obtain ⟨time, hformat, rfl⟩ := Option.map_eq_some_iff.1 h
  obtain ⟨d, ds, hdecimal, hd, hds⟩ := decimal_spec (Nat.ne_of_gt hid)
  have hread := readInt_decimal hmax hdecimal hds
  have hfirst : readMember {} "createdAt".toList (.string time) =
      some ⟨some cursor.createdAt, 0⟩ := by
    rw [readMember, if_pos (by decide), readCreatedAt, parse_format (zone.bound _) hformat]
    rfl
  have hsecond : readMember ⟨some cursor.createdAt, 0⟩ "id".toList (.number (d :: ds)) =
      some ⟨some cursor.createdAt, cursor.id⟩ := by
    rw [readMember, if_neg (by decide), if_pos (by decide), readId, hread]
    rfl
  have hchecked : Fields.accepted ⟨some cursor.createdAt, cursor.id⟩ = some cursor := by
    have hpos : ¬ (cursor.id : Int) ≤ 0 := Int.not_le.2 (Int.natCast_pos.2 hid)
    have hzero : cursor.createdAt ≠ zeroTime := fun heq => by
      rw [heq] at htime
      exact absurd zeroTime_neg (Int.not_lt.2 htime)
    unfold Fields.accepted
    dsimp only
    rw [if_neg (not_or.2 ⟨hpos, hzero⟩), Int.toNat_natCast]
  rw [hdecimal, unmarshal, document_marshal (format_plain hformat) hd hds]
  dsimp only
  rw [List.foldlM_cons, hfirst, Option.bind_eq_bind, Option.bind_some, List.foldlM_cons, hsecond]
  exact hchecked

theorem marshal_plain {json : List Char} (h : marshal zone cursor = some json) :
    ∀ c ∈ json, c.toNat < 128 := by
  obtain ⟨time, hformat, rfl⟩ := Option.map_eq_some_iff.1 h
  have hplain := format_plain hformat
  have hopen : ∀ c ∈ "\x7b\"createdAt\":\"".toList, c.toNat < 128 :=
    ListParts.forall_of_all (by decide)
  have hnext : ∀ c ∈ "\",\"id\":".toList, c.toNat < 128 := ListParts.forall_of_all (by decide)
  have hdigits := plain_digits (decimal_isDigit cursor.id)
  intro c hc
  simp only [List.mem_append, List.mem_singleton] at hc
  rcases hc with hc | hc | hc | hc | rfl
  · exact hopen c hc
  · exact (hplain c hc).2.2.2
  · exact hnext c hc
  · exact (hdigits c hc).2.2.2
  · decide

/-- A cursor of a suggestion is read as it was written. -/
theorem decode_encode (hid : 0 < cursor.id) (hmax : cursor.id < 2 ^ 63) (htime : 0 ≤ cursor.createdAt)
    (h : encodeCursor zone cursor = some text) : decodeCursor text = some cursor := by
  obtain ⟨json, hjson, rfl⟩ := Option.map_eq_some_iff.1 h
  have hbytes : ∀ b ∈ json.map Char.toNat, b < 256 := by
    intro b hb
    obtain ⟨c, hc, rfl⟩ := List.mem_map.1 hb
    have := marshal_plain hjson c hc
    omega
  have hchars : (json.map Char.toNat).map Char.ofNat = json := by
    rw [List.map_map]
    exact List.map_id'' (fun c => Char.ofNat_toNat c) json
  rw [decodeCursor, Base64Url.decode_encode hbytes, Option.bind_some, hchars,
    unmarshal_marshal hid hmax htime hjson]

end RoundTrip

end CursorText
