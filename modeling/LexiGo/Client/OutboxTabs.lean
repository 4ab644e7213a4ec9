import LexiGo.StepHistories
import LexiGo.Client.ReviewOutbox
import Mathlib.Data.List.Sort

/-! The outbox of several tabs over one database of the browser: every transaction on the
database and every answer of the network is a step of its own, and the tabs take their
steps in any order. -/
namespace OutboxTabs
open StepHistories JsonValue ReviewOutbox
open LearningSchema (UserId WordId LessonId IdempotencyKey)

structure OperationKey where
  userId : UserId
  lessonId : LessonId
  wordId : WordId
  lessonVersion : Int
  deriving DecidableEq

/-- A record with the columns that only the storage reads. -/
structure StoredReview extends ReviewOutboxRecord where
  endpoint : String
  createdAt : Nat
  updatedAt : Nat
  lastErrorCode : String := ""
  lastErrorMessage : String := ""

def StoredReview.operationKey (r : StoredReview) : OperationKey :=
  ⟨r.userId, r.lessonId, r.wordId, r.lessonVersion⟩

/-- The object store, and the keys that it has ever held. -/
structure Store where
  record : OperationKey → Option StoredReview
  keys : List OperationKey
  nodup : keys.Nodup
  mem_keys : ∀ k, (record k).isSome → k ∈ keys
  key_eq : ∀ k r, record k = some r → r.operationKey = k

namespace Store

def empty : Store where
  record _ := none
  keys := []
  nodup := List.nodup_nil
  mem_keys _ h := by cases h
  key_eq _ _ h := by cases h

def put (store : Store) (r : StoredReview) : Store where
  record k := if k = r.operationKey then some r else store.record k
  keys := if r.operationKey ∈ store.keys then store.keys else r.operationKey :: store.keys
  nodup := by
    split
    · exact store.nodup
    · rename_i h
      exact List.nodup_cons.2 ⟨h, store.nodup⟩
  mem_keys k h := by
    by_cases hk : k = r.operationKey
    · subst hk
      split
      · assumption
      · exact List.mem_cons_self
    · rw [if_neg hk] at h
      have hmem := store.mem_keys k h
      split
      · exact hmem
      · exact List.mem_cons_of_mem _ hmem
  key_eq k r' h := by
    split at h
    · rename_i hk
      cases h
      exact hk.symm
    · exact store.key_eq k r' h

/-- The records that `p` holds of are deleted. -/
def delete (store : Store) (p : StoredReview → Bool) : Store where
  record k := (store.record k).filter fun r => !p r
  keys := store.keys
  nodup := store.nodup
  mem_keys k h := by
    cases hr : store.record k with
    | none => simp [hr] at h
    | some r => exact store.mem_keys k (by simp [hr])
  key_eq k r h := store.key_eq k r (Option.filter_eq_some_iff.1 h).1

theorem put_record (store : Store) (r : StoredReview) (k : OperationKey) :
    (store.put r).record k = if k = r.operationKey then some r else store.record k := rfl

theorem delete_record (store : Store) (p : StoredReview → Bool) (k : OperationKey) :
    (store.delete p).record k = (store.record k).filter fun r => !p r := rfl

end Store

structure ReviewInput where
  userId : UserId
  endpoint : String
  lessonId : LessonId
  wordId : WordId
  payload : LessonReviewPayload
  requestBody : Json

def ReviewInput.operationKey (input : ReviewInput) : OperationKey :=
  ⟨input.userId, input.lessonId, input.wordId, input.payload.lessonVersion⟩

def enqueueLessonReview (now : Nat) (uuid : IdempotencyKey) (input : ReviewInput) (store : Store) :
    StoredReview × Store :=
  match store.record input.operationKey with
  | some existing => (existing, store)
  | none =>
    let record : StoredReview :=
      { idempotencyKey := uuid
        userId := input.userId
        endpoint := input.endpoint
        lessonId := input.lessonId
        wordId := input.wordId
        lessonVersion := input.payload.lessonVersion
        requestBody := input.requestBody
        createdAt := now
        updatedAt := now }
    (record, store.put record)

/-- What `updateLessonReview` is given: all four, wherever it is called. -/
structure Changes where
  status : ReviewOutboxState
  attempts : Nat
  lastErrorCode : String := ""
  lastErrorMessage : String := ""

def StoredReview.with (r : StoredReview) (changes : Changes) (now : Nat) : StoredReview :=
  { r with
    status := changes.status
    attempts := changes.attempts
    lastErrorCode := changes.lastErrorCode
    lastErrorMessage := changes.lastErrorMessage
    updatedAt := now }

def updateLessonReview (now : Nat) (k : OperationKey) (changes : Changes) (store : Store) : Store :=
  match store.record k with
  | none => store
  | some r => store.put (r.with changes now)

def listLessonReviews (u : UserId) (store : Store) : List StoredReview :=
  ((store.keys.filterMap store.record).filter fun r => r.userId = u).insertionSort
    fun left right => left.createdAt ≤ right.createdAt

def syncedRetentionMs : Nat := 24 * 60 * 60 * 1000

def pruneSyncedLessonReviews (now : Nat) (store : Store) : Store :=
  store.delete fun r => r.status = .synced && syncedRetentionMs ≤ now - r.updatedAt

section Activities

/-- Where a call of `interceptedFetch` or of `syncPendingReviews` has come to. `caught`
says that the outcome to be stored is that of the `catch`. -/
inductive Activity
  | queued (record : StoredReview) (payload : LessonReviewPayload)
  | sent (record : StoredReview)
  | answered (record : StoredReview) (changes : Changes) (caught : Bool)
  | listing (session : Session)
  | passing (session : Session) (records : List StoredReview)
  | passSent (session : Session) (record : StoredReview) (rest : List StoredReview)
  | refreshing (record : StoredReview) (rest : List StoredReview)
  | resent (session : Session) (record : StoredReview) (rest : List StoredReview)
  | passAnswered (record : StoredReview) (changes : Changes)
      (next : Option (Session × List StoredReview))
  | finishing

structure Response where
  status : Nat
  code : String := ""
  message : String := ""

/-- What an activity waits for: `proceed` is its own next transaction, or a step that
needs none. -/
inductive Event
  | proceed (now : Nat)
  | aborted
  | response (response : Response)
  | networkFailure (message : String)
  | refreshed (session : Session)
  | refreshFailed (message : String)

def StoredReview.synced (record : StoredReview) : Changes :=
  { status := .synced, attempts := record.attempts + 1 }

def StoredReview.failed (record : StoredReview) (failure : Response) : Changes :=
  { status := .failed
    attempts := record.attempts + 1
    lastErrorCode := failure.code
    lastErrorMessage := failure.message }

def StoredReview.pending (record : StoredReview) (code message : String) : Changes :=
  { status := .pending
    attempts := record.attempts + 1
    lastErrorCode := code
    lastErrorMessage := message }

def currentNetworkFailureCode (online : Bool) : String :=
  if online then "network_request_failed" else "network_offline"

/-- The end of `interceptedFetch`, from the response on. -/
def respond (record : StoredReview) (response : Response) : Option Activity :=
  match reviewResponseDisposition response.status with
  | .synced => some (.answered record record.synced false)
  | .failed => some (.answered record (record.failed response) false)
  | .retry => some (.answered record (record.pending response.code response.message) false)
  | .refreshSession => none

/-- The end of the loop's body, from the last response on. -/
def passRespond (session : Session) (record : StoredReview) (rest : List StoredReview)
    (response : Response) : Activity :=
  match reviewResponseDisposition response.status with
  | .synced => .passAnswered record record.synced (some (session, rest))
  | .failed => .passAnswered record (record.failed response) none
  | .retry | .refreshSession =>
    .passAnswered record (record.pending response.code response.message) none

/-- What one event makes of an activity and of the store; `none` is an activity that has
come to its end. An event that the activity does not wait for changes nothing. -/
def advance (online : Bool) (store : Store) : Activity → Event → Option Activity × Store
  -- The bodies are texts of payloads: they are the same text when the payloads agree.
  | .queued record payload, .proceed _ =>
    (if parseLessonReviewPayload record.requestBody ≠ some payload ∨ online = false then none
      else some (.sent record), store)
  | .sent record, .response response => (respond record response, store)
  | .sent record, .networkFailure message =>
    (some (.answered record (record.pending (currentNetworkFailureCode online) message) true), store)
  | .answered record changes _, .proceed now =>
    (none, updateLessonReview now record.operationKey changes store)
  | .answered record _ false, .aborted =>
    (some (.answered record (record.pending (currentNetworkFailureCode online) "") true), store)
  | .answered _ _ true, .aborted => (none, store)
  | .listing session, .proceed _ =>
    (some (.passing session ((listLessonReviews session.userId store).filter
      fun r => r.status = .pending)), store)
  | .passing _ [], .proceed _ => (some .finishing, store)
  | .passing session (record :: rest), .proceed _ => (some (.passSent session record rest), store)
  | .passSent session record rest, .response response =>
    (some (if response.status = 401 then .refreshing record rest
      else passRespond session record rest response), store)
  | .refreshing record rest, .refreshed session =>
    (some (if session.userId ≠ record.userId then .finishing else .resent session record rest), store)
  | .refreshing record _, .refreshFailed message =>
    (some (.passAnswered record (record.pending "session_refresh_failed" message) none), store)
  | .resent session record rest, .response response =>
    (some (passRespond session record rest response), store)
  | .resent _ record _, .networkFailure message =>
    (some (.passAnswered record (record.pending "session_refresh_failed" message) none), store)
  | .passAnswered record changes (some (session, rest)), .proceed now =>
    (some (.passing session rest), updateLessonReview now record.operationKey changes store)
  | .passAnswered record changes none, .proceed now =>
    (some .finishing, updateLessonReview now record.operationKey changes store)
  | .listing _, .aborted | .passSent _ _ _, .networkFailure _ | .passAnswered _ _ _, .aborted =>
    (some .finishing, store)
  | .finishing, .proceed _ => (none, store)
  | activity, _ => (some activity, store)

end Activities

section Tabs

abbrev TabId := Nat

/-- A tab runs one pass at a time, and as many sends as there are calls. -/
inductive Slot
  | pass
  | live (n : Nat)
  deriving DecidableEq

structure Tab where
  online : Bool := true
  session : Option Session := none
  activity : Slot → Option Activity := fun _ => none

structure Browser where
  store : Store := .empty
  tab : TabId → Tab := fun _ => {}

inductive Command
  | setSession (tab : TabId) (session : Option Session)
  | setOnline (tab : TabId) (online : Bool)
  | close (tab : TabId)
  | prune (now : Nat)
  | fetch (tab : TabId) (n : Nat) (endpoint : String) (lessonId : LessonId) (wordId : WordId)
      (body : Json) (now : Nat) (uuid : IdempotencyKey)
  | syncPendingReviews (tab : TabId)
  | resume (tab : TabId) (slot : Slot) (event : Event)

def Browser.set (b : Browser) (t : TabId) (tab : Tab) : Browser :=
  { b with tab := fun t' => if t' = t then tab else b.tab t' }

def Tab.set (tab : Tab) (slot : Slot) (activity : Option Activity) : Tab :=
  { tab with activity := fun slot' => if slot' = slot then activity else tab.activity slot' }

/-- A session that a pass has refreshed is the tab's from then on. -/
def Tab.adopt (tab : Tab) : Activity → Event → Tab
  | .refreshing _ _, .refreshed session => { tab with session := some session }
  | _, _ => tab

/-- The transaction of `interceptedFetch` that stores the review before it is sent. -/
def fetch (b : Browser) (t : TabId) (n : Nat) (endpoint : String) (lessonId : LessonId)
    (wordId : WordId) (body : Json) (now : Nat) (uuid : IdempotencyKey) : Browser :=
  match (b.tab t).session, parseLessonReviewPayload body, (b.tab t).activity (.live n) with
  | some session, some payload, none =>
    let (record, store) := enqueueLessonReview now uuid
      ⟨session.userId, endpoint, lessonId, wordId, payload, payload.stringify⟩ b.store
    { b with store := store }.set t ((b.tab t).set (.live n) (some (.queued record payload)))
  | _, _, _ => b

def step (b : Browser) : Command → Browser
  | .setSession t session => b.set t { b.tab t with session := session }
  | .setOnline t online => b.set t { b.tab t with online := online }
  | .close t => b.set t {}
  | .prune now => { b with store := pruneSyncedLessonReviews now b.store }
  | .fetch t n endpoint lessonId wordId body now uuid =>
    fetch b t n endpoint lessonId wordId body now uuid
  | .syncPendingReviews t =>
    match (b.tab t).session, (b.tab t).activity .pass with
    | some session, none =>
      if (b.tab t).online then b.set t ((b.tab t).set .pass (some (.listing session))) else b
    | _, _ => b
  | .resume t slot event =>
    match (b.tab t).activity slot with
    | none => b
    | some activity =>
      let (next, store) := advance (b.tab t).online b.store activity event
      { b with store := store }.set t (((b.tab t).adopt activity event).set slot next)

end Tabs

end OutboxTabs
