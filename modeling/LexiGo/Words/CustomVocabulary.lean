import LexiGo.GoText

/-! What users may add to the catalogue for themselves: words, phrases and whole
glossaries. A request is brought into its stored form first, and refused with the
name of the field that is wrong. -/
namespace CustomVocabulary
open GoText

structure ValidationError where
  field : String
  message : String
  deriving DecidableEq

structure CreateCustomWordRequest where
  headword : String
  translation : String
  phonetic : String := ""
  partOfSpeech : String := ""
  topic : String := ""
  note : String := ""
  deriving DecidableEq

structure CreateCustomPhraseRequest where
  headword : String
  translation : String
  phonetic : String := ""
  topic : String := ""
  note : String := ""
  cloze : String
  clozeAnswer : String
  deriving DecidableEq

def customWordSource : String := "user-custom-v1"
def customWordDefaultTopic : String := "Personal"
def customPhrasePartOfSpeech : String := "phrase"
def customPhraseBlankMarker : String := "_____"

/-- `strings.Join(strings.Fields(value), " ")` -/
def normalizeCustomWordText (value : String) : String :=
  " ".intercalate (fieldsFunc isSpace value)

/-- The first of the fields that is longer than it may be. -/
def overlong (fields : List (String × String × Nat)) : Option ValidationError :=
  (fields.find? fun (_, value, maximum) => maximum < value.length).map fun (name, _, maximum) =>
    ⟨name, "must contain at most " ++ toString maximum ++ " characters"⟩

def rejectOverlong {α : Type} (fields : List (String × String × Nat)) (a : α) :
    Except ValidationError α :=
  match overlong fields with
  | some error => .error error
  | none => .ok a

def defaultTopic (topic : String) : String := if topic = "" then customWordDefaultTopic else topic

def normalizeCustomWordRequest (request : CreateCustomWordRequest) :
    Except ValidationError CreateCustomWordRequest :=
  let normalized : CreateCustomWordRequest :=
    { headword := normalizeCustomWordText request.headword
      translation := normalizeCustomWordText request.translation
      phonetic := normalizeCustomWordText request.phonetic
      partOfSpeech := normalizeCustomWordText request.partOfSpeech
      topic := defaultTopic (normalizeCustomWordText request.topic)
      note := normalizeCustomWordText request.note }
  if normalized.headword = "" then .error ⟨"lemma", "lemma is required"⟩
  else if normalized.translation = "" then .error ⟨"translation", "translation is required"⟩
  else rejectOverlong
    [("lemma", normalized.headword, 160),
      ("translation", normalized.translation, 500),
      ("phonetic", normalized.phonetic, 120),
      ("partOfSpeech", normalized.partOfSpeech, 80),
      ("topic", normalized.topic, 120),
      ("note", normalized.note, 1000)] normalized

/-- `strings.Count(value, marker)`, for a marker that is not empty. -/
def occurrences (marker : List Char) : List Char → Nat → Nat
  | _, 0 => 0
  | [], _ => 0
  | c :: rest, fuel + 1 =>
    if marker.isPrefixOf (c :: rest) then
      1 + occurrences marker ((c :: rest).drop marker.length) fuel
    else occurrences marker rest fuel

def normalizeCustomPhraseRequest (request : CreateCustomPhraseRequest) :
    Except ValidationError CreateCustomPhraseRequest :=
  let normalized : CreateCustomPhraseRequest :=
    { headword := normalizeCustomWordText request.headword
      translation := normalizeCustomWordText request.translation
      phonetic := normalizeCustomWordText request.phonetic
      topic := defaultTopic (normalizeCustomWordText request.topic)
      note := normalizeCustomWordText request.note
      cloze := normalizeCustomWordText request.cloze
      clozeAnswer := normalizeCustomWordText request.clozeAnswer }
  if normalized.headword = "" then .error ⟨"lemma", "lemma is required"⟩
  else if normalized.translation = "" then .error ⟨"translation", "translation is required"⟩
  else if normalized.cloze = "" then .error ⟨"cloze", "cloze is required"⟩
  else if normalized.clozeAnswer = "" then .error ⟨"clozeAnswer", "cloze answer is required"⟩
  else if occurrences customPhraseBlankMarker.toList normalized.cloze.toList
      normalized.cloze.length ≠ 1 then
    .error ⟨"cloze", "cloze must contain exactly one _____ marker"⟩
  else rejectOverlong
    [("lemma", normalized.headword, 160),
      ("translation", normalized.translation, 500),
      ("phonetic", normalized.phonetic, 120),
      ("topic", normalized.topic, 120),
      ("note", normalized.note, 1000),
      ("cloze", normalized.cloze, 500),
      ("clozeAnswer", normalized.clozeAnswer, 160)] normalized

structure CustomGlossaryEnvelope where
  version : Int
  items : List CreateCustomWordRequest
  deriving DecidableEq

def maxCustomGlossaryItems : Nat := 100

section Glossary
variable (unicode : Unicode)

def identity (item : CreateCustomWordRequest) : List Char × List Char :=
  (item.headword.toList.map unicode.toLower, item.translation.toList.map unicode.toLower)

/-- The items from `index` on, one after the other. -/
def normalizeGlossaryItems (index : Nat) (seen : List (List Char × List Char)) :
    List CreateCustomWordRequest → Except ValidationError (List CreateCustomWordRequest)
  | [] => .ok []
  | item :: rest =>
    match normalizeCustomWordRequest item with
    | .error error =>
      .error ⟨"items[" ++ toString index ++ "]." ++ error.field, error.message⟩
    | .ok normalized =>
      if identity unicode normalized ∈ seen then
        let field := "items[" ++ toString index ++ "].lemma"
        .error ⟨field, "duplicate custom glossary item at " ++ field⟩
      else
        match normalizeGlossaryItems (index + 1) (identity unicode normalized :: seen) rest with
        | .error error => .error error
        | .ok items => .ok (normalized :: items)

def normalizeCustomGlossaryImport (request : CustomGlossaryEnvelope) :
    Except ValidationError (List CreateCustomWordRequest) :=
  if request.version ≠ 1 then .error ⟨"version", "must equal 1"⟩
  else if request.items.isEmpty then .error ⟨"items", "must contain at least one item"⟩
  else if maxCustomGlossaryItems < request.items.length then
    .error ⟨"items", "must contain at most " ++ toString maxCustomGlossaryItems ++ " items"⟩
  else normalizeGlossaryItems unicode 0 [] request.items

end Glossary

end CustomVocabulary
