import LexiGo.JsText
import LexiGo.Learning.AnswerJudgement

/-! The judge that the client carries, which tells a learner at once what the
server will make of an answer. The classes of characters are those the server
reads; `lower` is `toLocaleLowerCase` for the Russian locale, and may lengthen
what it lowers. -/
namespace LearningItems
open GoText JsText
open AnswerJudgement (WordKind)

/-- What the client keeps of a word or a phrase, as far as judging goes. -/
structure LearningItem where
  kind : WordKind
  prompt : String
  answer : String
  acceptedAnswers : Option (List String) := none
  cloze : Option String := none
  clozeAnswer : Option String := none

inductive AnswerJudgementReason
  | acceptedExact
  | acceptedNormalized
  | rejectedNoAnswer
  | rejectedNoMatch
  deriving DecidableEq

structure AnswerJudgement where
  correct : Bool
  reason : AnswerJudgementReason
  matchedAnswer : String
  deriving DecidableEq

variable (unicode : Unicode) (lower : String → String)

/-- The fragment of the prompt that stands where the cloze has its blank. -/
def inferClozeAnswer (prompt : String) (cloze : Option String) : String :=
  match cloze with
  | none => ""
  | some cloze =>
    if '_' ∉ cloze.toList then ""
    else
      let start := cloze.toList.takeWhile (· ≠ '_')
      let suffix := cloze.toList.rtakeWhile (· ≠ '_')
      if !start.isPrefixOf prompt.toList || !suffix.isSuffixOf prompt.toList then ""
      else
        let last := prompt.length - suffix.length
        trim (String.ofList ((prompt.toList.take last).drop start.length))

/-- `||` on strings: the first one that is not empty. -/
def orElse (s t : String) : String :=
  if s = "" then t else s

def exerciseAnswer (item : LearningItem) : String :=
  if item.kind = .phrase && item.cloze.any (· ≠ "") then
    orElse (item.clozeAnswer.elim "" trim)
      (orElse (inferClozeAnswer item.prompt item.cloze) (trim item.answer))
  else trim item.answer

def lowerCharacter (inputCharacter : Char) : String :=
  let character := lower (String.singleton inputCharacter)
  if character = "ё" then "е" else character

/-- `/^[\p{L}\p{N}]$/u`: one letter or one number, and nothing else. -/
def letterOrNumber (character : String) : Bool :=
  match character.toList with
  | [c] => unicode.isLetter c || unicode.isNumber c
  | _ => false

def normalizeStep : String × Bool → Char → String × Bool
  | (normalized, spacePending), inputCharacter =>
    let character := lowerCharacter lower inputCharacter
    if letterOrNumber unicode character then
      ((if spacePending && normalized ≠ "" then normalized ++ " " else normalized) ++ character,
        false)
    else if character = "'" || character = "\u2019" || character = "\u02BC" then
      (normalized, spacePending)
    else
      (normalized, normalized ≠ "")

def normalizeAnswer (value : String) : String :=
  let (normalized, _) := (trim value).toList.foldl (normalizeStep unicode lower) ("", false)
  trim normalized

def isDelimiter (c : Char) : Bool :=
  c = ',' || c = ';' || c = '/'

def canonicalTranslationCandidates (value : String) : List String :=
  let trimmed := trim value
  if trimmed = "" then []
  else
    let alternatives := ((split isDelimiter trimmed).map trim).filter (· ≠ "")
    if 1 < alternatives.length then trimmed :: alternatives else [trimmed]

/-- The filter over the candidates, with the normal forms it has `seen`. -/
def unseen : List String → List String → List String
  | _, [] => []
  | seen, candidate :: rest =>
    let normalized := normalizeAnswer unicode lower candidate
    if normalized = "" || normalized ∈ seen then unseen seen rest
    else candidate :: unseen (normalized :: seen) rest

def primaryCandidates (item : LearningItem) : List String :=
  if item.kind = .word then canonicalTranslationCandidates (exerciseAnswer item)
  else [exerciseAnswer item]

def acceptedAnswersForItem (item : LearningItem) : List String :=
  unseen unicode lower [] (primaryCandidates item ++ item.acceptedAnswers.getD [])

def matchAnswer (trimmed normalized : String) : List String → AnswerJudgement
  | [] => ⟨false, .rejectedNoMatch, ""⟩
  | candidate :: rest =>
    if lower trimmed = lower (trim candidate) then ⟨true, .acceptedExact, candidate⟩
    else if normalized = normalizeAnswer unicode lower candidate then
      ⟨true, .acceptedNormalized, candidate⟩
    else matchAnswer trimmed normalized rest

def judgeLearningAnswer (item : LearningItem) (submittedAnswer : String) : AnswerJudgement :=
  let trimmed := trim submittedAnswer
  let normalized := normalizeAnswer unicode lower trimmed
  if normalized = "" then ⟨false, .rejectedNoAnswer, ""⟩
  else matchAnswer unicode lower trimmed normalized (acceptedAnswersForItem unicode lower item)

end LearningItems
