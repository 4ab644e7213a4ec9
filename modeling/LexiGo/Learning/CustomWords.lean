import LexiGo.Learning.LessonRepository

/-! Deleting a private word or phrase. The lessons that use it are discarded
first; then the row goes, and with it every row that names it. -/
namespace CustomWords
open RowStore TransactionProgram AnswerJudgement Scheduler LearningSchema LessonRepository

def customWordSource : String := "user-custom-v1"

/-- An active lesson of `u` with an item for `w`. -/
def usesWord (u : UserId) (w : WordId) (db : LearningDb) (l : LessonId) (r : LessonRow) : Bool :=
  r.activeOf u && (db.lookup (.item l w)).isSome

/-- The lessons that the statement saw; only those still active are discarded. -/
def discardUsing (u : UserId) (w : WordId) (now : Instant) : LearningProg (List Key) := do
  let seen ← select fun db => rowsWhere (lessons (usesWord u w db)) db
  let changed ← updateRows .noKeyUpdate (lessons fun _ r => r.activeOf u)
    (onLesson (LessonRow.discard now)) seen
  if !changed.isEmpty then
    lockRow (.activeLesson u) .update
  return seen

/-- The rows that `ON DELETE CASCADE` takes along with a word. -/
def cascadeWord (w : WordId) : LearningProg Unit := do
  let _ ← deleteWhere (items fun _ w' _ => w' = w)
  let _ ← deleteWhere (userWords fun _ w' _ => w' = w)
  let _ ← deleteWhere (events fun _ r => r.wordId = w)
  let _ ← deleteWhere (idempotencyRows fun _ _ r => r.requestHash.wordId = w)

def isCustom (u : UserId) (kind : WordKind) (r : WordRow) : Bool :=
  r.owner = some u && r.kind = kind && r.source = customWordSource

def lockWord (w : WordId) (p : WordRow → Bool) : LearningProg (Option WordRow) :=
  selectFor (Key.word w) .update p

def deleteCustom (kind : WordKind) (missing : LessonError) (u : UserId) (w : WordId) :
    LearningProg (Reply Unit) := do
  let dbNow ← choose
  let seen ← discardUsing u w dbNow
  let some _ ← lockWord w (isCustom u kind) | leave (.error missing)
  writeRow (.word w) .update none
  cascadeWord w
  commit [.wordDeleted u w seen]
  return .ok ()

def deleteCustomWord : UserId → WordId → LearningProg (Reply Unit) :=
  deleteCustom .word .customWordNotFound

def deleteCustomPhrase : UserId → WordId → LearningProg (Reply Unit) :=
  deleteCustom .phrase .customPhraseNotFound

end CustomWords
