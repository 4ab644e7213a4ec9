import LexiGo.Client.OutboxTabs

/-! Whether a review that is stored as synced stays so. Each tab stores what it concluded
from its own send, whatever another tab has stored meanwhile: a synced review stays synced
as long as the sends of one review do not end in different ways at one time. -/
namespace SyncedReviews
open StepHistories JsonValue ReviewOutbox OutboxTabs
open LearningSchema (IdempotencyKey)

variable {b : Browser}

/-- What the network makes of a send: of which review, and whether it was a success. -/
def outcome : Activity → Event → Option (OperationKey × Bool)
  | .sent record, .response response =>
    match reviewResponseDisposition response.status with
    | .synced => some (record.operationKey, true)
    | .failed | .retry => some (record.operationKey, false)
    | .refreshSession => none
  | .sent record, .networkFailure _ | .answered record _ false, .aborted =>
    some (record.operationKey, false)
  | .passSent _ record _, .response response =>
    if response.status = 401 then none
    else some (record.operationKey, reviewResponseDisposition response.status = .synced)
  | .resent _ record _, .response response =>
    some (record.operationKey, reviewResponseDisposition response.status = .synced)
  | .resent _ record _, .networkFailure _ | .refreshing record _, .refreshFailed _ =>
    some (record.operationKey, false)
  | _, _ => none

/-- An outcome that is on its way into the store. -/
def toStore : Activity → Option (OperationKey × Bool)
  | .answered record changes _ | .passAnswered record changes _ =>
    some (record.operationKey, changes.status = .synced)
  | _ => none

def Waits (b : Browser) (t : TabId) (slot : Slot) (k : OperationKey) (success : Bool) : Prop :=
  ∃ activity, (b.tab t).activity slot = some activity ∧ toStore activity = some (k, success)

def IsSynced (b : Browser) (k : OperationKey) : Prop :=
  ∃ r, b.store.record k = some r ∧ r.status = .synced

/-- No failure comes in for a review that is stored as synced, and none at one time with
a success of another send of it. -/
def Orderly (b : Browser) : Command → Prop
  | .resume t slot event => ∀ activity k success, (b.tab t).activity slot = some activity →
      outcome activity event = some (k, success) →
      (success = false → ¬ IsSynced b k) ∧
      ∀ t' slot', (t', slot') ≠ (t, slot) → ¬ Waits b t' slot' k (!success)
  | _ => True

/-- Where a failure is to be stored, nothing knows of a success. -/
def Clear (b : Browser) : Prop :=
  ∀ t slot k, Waits b t slot k false → ¬ IsSynced b k ∧ ∀ t' slot', ¬ Waits b t' slot' k true

/-- What is stored as synced still is, or it is gone. -/
def Kept (b b' : Browser) : Prop :=
  ∀ k r, b.store.record k = some r → r.status = .synced →
    b'.store.record k = none ∨
      ∃ r', b'.store.record k = some r' ∧ r'.status = .synced ∧ r'.idempotencyKey = r.idempotencyKey

theorem Clear.mono {b' : Browser} (h : Clear b)
    (hwaits : ∀ t slot k success, Waits b' t slot k success → Waits b t slot k success)
    (hsynced : ∀ k, IsSynced b' k → IsSynced b k) : Clear b' := by
  intro t slot k hwait
  obtain ⟨hnot, hnone⟩ := h t slot k (hwaits t slot k false hwait)
  refine ⟨fun hs => hnot (hsynced k hs), fun t' slot' hwait' => ?_⟩
  exact hnone t' slot' (hwaits t' slot' k true hwait')

theorem Kept.of_eq {b' : Browser} (h : b'.store = b.store) : Kept b b' := by
  intro k r hr hsynced
  exact .inr ⟨r, by rw [h, hr], hsynced, rfl⟩

section Advance
variable {online : Bool} {store : Store}

theorem toStore_respond (record : StoredReview) (response : Response) :
    (respond record response).bind toStore = outcome (.sent record) (.response response) := by
  cases h : reviewResponseDisposition response.status <;>
    simp [respond, outcome, toStore, h, StoredReview.synced, StoredReview.failed,
      StoredReview.pending]

theorem toStore_passRespond (session : Session) (record : StoredReview)
    (rest : List StoredReview) (response : Response) :
    toStore (passRespond session record rest response) =
      some (record.operationKey, decide (reviewResponseDisposition response.status = .synced)) := by
  unfold passRespond
  cases reviewResponseDisposition response.status <;> rfl

/-- An event brings an outcome, has one stored, or does neither. -/
theorem advance_cases (activity : Activity) (event : Event) :
    ((advance online store activity event).2 = store ∧
      ((advance online store activity event).1 = some activity ∨
        (advance online store activity event).1.bind toStore = outcome activity event)) ∨
    ∃ (now : Nat) (record : StoredReview) (changes : Changes), toStore activity =
        some (record.operationKey, decide (changes.status = .synced)) ∧
      (advance online store activity event).2 =
        updateLessonReview now record.operationKey changes store ∧
      (advance online store activity event).1.bind toStore = none := by
  cases activity with
  | queued record payload =>
    cases event with
    | proceed now =>
      refine .inl ⟨rfl, .inr ?_⟩
      simp only [advance]
      split <;> rfl
    | _ => exact .inl ⟨rfl, .inl rfl⟩
  | sent record =>
    cases event with
    | response response => exact .inl ⟨rfl, .inr (toStore_respond record response)⟩
    | networkFailure message => exact .inl ⟨rfl, .inr rfl⟩
    | _ => exact .inl ⟨rfl, .inl rfl⟩
  | answered record changes caught =>
    cases event with
    | proceed now => exact .inr ⟨now, record, changes, rfl, rfl, rfl⟩
    | aborted =>
      cases caught with
      | false => exact .inl ⟨rfl, .inr rfl⟩
      | true => exact .inl ⟨rfl, .inr rfl⟩
    | _ => exact .inl ⟨rfl, .inl rfl⟩
  | listing session =>
    cases event with
    | proceed now => exact .inl ⟨rfl, .inr rfl⟩
    | aborted => exact .inl ⟨rfl, .inr rfl⟩
    | _ => exact .inl ⟨rfl, .inl rfl⟩
  | passing session records =>
    cases event with
    | proceed now => cases records <;> exact .inl ⟨rfl, .inr rfl⟩
    | _ => cases records <;> exact .inl ⟨rfl, .inl rfl⟩
  | passSent session record rest =>
    cases event with
    | response response =>
      refine .inl ⟨rfl, .inr ?_⟩
      by_cases h : response.status = 401
      · simp [advance, outcome, h, toStore]
      · simp [advance, outcome, h, toStore_passRespond]
    | networkFailure message => exact .inl ⟨rfl, .inr rfl⟩
    | _ => exact .inl ⟨rfl, .inl rfl⟩
  | refreshing record rest =>
    cases event with
    | refreshed session =>
      refine .inl ⟨rfl, .inr ?_⟩
      simp only [advance]
      split <;> rfl
    | refreshFailed message => exact .inl ⟨rfl, .inr rfl⟩
    | _ => exact .inl ⟨rfl, .inl rfl⟩
  | resent session record rest =>
    cases event with
    | response response =>
      exact .inl ⟨rfl, .inr (toStore_passRespond session record rest response)⟩
    | networkFailure message => exact .inl ⟨rfl, .inr rfl⟩
    | _ => exact .inl ⟨rfl, .inl rfl⟩
  | passAnswered record changes next =>
    cases event with
    | proceed now =>
      cases next with
      | none => exact .inr ⟨now, record, changes, rfl, rfl, rfl⟩
      | some next => exact .inr ⟨now, record, changes, rfl, rfl, rfl⟩
    | aborted => cases next <;> exact .inl ⟨rfl, .inr rfl⟩
    | _ => cases next <;> exact .inl ⟨rfl, .inl rfl⟩
  | finishing =>
    cases event with
    | proceed now => exact .inl ⟨rfl, .inr rfl⟩
    | _ => exact .inl ⟨rfl, .inl rfl⟩

end Advance

section Step

theorem resume_tab {t : TabId} {slot : Slot} {event : Event} {activity : Activity}
    (h : (b.tab t).activity slot = some activity) :
    (step b (.resume t slot event)).store =
        (advance (b.tab t).online b.store activity event).2 ∧
      ∀ t' slot', ((step b (.resume t slot event)).tab t').activity slot' =
        if (t', slot') = (t, slot) then (advance (b.tab t).online b.store activity event).1
        else (b.tab t').activity slot' := by
  have hadopt : ((b.tab t).adopt activity event).activity = (b.tab t).activity := by
    unfold Tab.adopt
    split <;> rfl
  simp only [step, h]
  refine ⟨rfl, fun t' slot' => ?_⟩
  by_cases ht : t' = t
  · subst ht
    by_cases hslot : slot' = slot
    · simp [Browser.set, Tab.set, hslot]
    · simp [Browser.set, Tab.set, hslot, hadopt]
  · simp [Browser.set, ht]

theorem isSynced_update {store : Store} {now : Nat} {k : OperationKey} {changes : Changes}
    {k' : OperationKey} {r : StoredReview}
    (h : (updateLessonReview now k changes store).record k' = some r) (hsynced : r.status = .synced) :
    (k' = k ∧ changes.status = .synced) ∨ store.record k' = some r := by
  unfold updateLessonReview at h
  cases hr : store.record k with
  | none =>
    rw [hr] at h
    exact .inr h
  | some old =>
    rw [hr] at h
    dsimp only at h
    rw [Store.put_record] at h
    split at h
    · rename_i hk
      cases h
      exact .inl ⟨hk.trans (store.key_eq k old hr), hsynced⟩
    · exact .inr h

theorem kept_update {store : Store} {now : Nat} {k k' : OperationKey} {changes : Changes}
    {r : StoredReview} (hr : store.record k' = some r) (hsynced : r.status = .synced)
    (hchanges : k' = k → changes.status = .synced) :
    ∃ r', (updateLessonReview now k changes store).record k' = some r' ∧ r'.status = .synced ∧
      r'.idempotencyKey = r.idempotencyKey := by
  unfold updateLessonReview
  by_cases hk : k' = k
  · subst hk
    rw [hr]
    have hkey : k' = (r.with changes now).operationKey := (store.key_eq k' r hr).symm
    refine ⟨r.with changes now, ?_, hchanges rfl, rfl⟩
    exact (Store.put_record store (r.with changes now) k').trans (if_pos hkey)
  · cases hold : store.record k with
    | none => exact ⟨r, hr, hsynced, rfl⟩
    | some old =>
      dsimp only
      rw [Store.put_record, if_neg]
      · exact ⟨r, hr, hsynced, rfl⟩
      · intro heq
        exact hk (heq.trans (store.key_eq k old hold))

theorem step_resume {t : TabId} {slot : Slot} {event : Event} (hclear : Clear b)
    (horderly : Orderly b (.resume t slot event)) :
    Clear (step b (.resume t slot event)) ∧ Kept b (step b (.resume t slot event)) := by
  cases hactivity : (b.tab t).activity slot with
  | none =>
    have hsame : step b (.resume t slot event) = b := by simp only [step, hactivity]
    rw [hsame]
    exact ⟨hclear, Kept.of_eq rfl⟩
  | some activity =>
    obtain ⟨hstore, htabs⟩ := @resume_tab b t slot event activity hactivity
    have hothers : ∀ t' slot' k success, (t', slot') ≠ (t, slot) →
        Waits (step b (.resume t slot event)) t' slot' k success → Waits b t' slot' k success := by
      rintro t' slot' k success hne ⟨other, hother, hto⟩
      rw [htabs, if_neg hne] at hother
      exact ⟨other, hother, hto⟩
    have hown : ∀ k success, Waits (step b (.resume t slot event)) t slot k success →
        (advance (b.tab t).online b.store activity event).1.bind toStore = some (k, success) := by
      rintro k success ⟨next, hnext, hto⟩
      rw [htabs, if_pos rfl] at hnext
      rw [hnext]
      exact hto
    rcases @advance_cases (b.tab t).online b.store activity event with
      ⟨hsame, hnext⟩ | ⟨now, record, changes, hto, hupdate, hnext⟩
    · -- Nothing is stored: an outcome may have come in.
      rw [hsame] at hstore
      refine ⟨?_, Kept.of_eq hstore⟩
      have hsynced : ∀ k, IsSynced (step b (.resume t slot event)) k ↔ IsSynced b k := by
        intro k
        rw [IsSynced, IsSynced, hstore]
      rcases hnext with hnext | hnext
      · refine hclear.mono (fun t' slot' k success hwait => ?_) fun k => (hsynced k).1
        by_cases hne : (t', slot') = (t, slot)
        · cases hne
          have hbind := hown k success hwait
          rw [hnext] at hbind
          exact ⟨activity, hactivity, hbind⟩
        · exact hothers t' slot' k success hne hwait
      · have hbrought : ∀ k success, Waits (step b (.resume t slot event)) t slot k success →
            (success = false → ¬ IsSynced b k) ∧
              ∀ t' slot', (t', slot') ≠ (t, slot) → ¬ Waits b t' slot' k (!success) := by
          intro k success hwait
          exact horderly activity k success hactivity (hnext.symm.trans (hown k success hwait))
        intro t₁ slot₁ k hfailure
        rw [hsynced k]
        by_cases h₁ : (t₁, slot₁) = (t, slot)
        · cases h₁
          refine ⟨(hbrought k false hfailure).1 rfl, fun t₂ slot₂ hsuccess => ?_⟩
          by_cases h₂ : (t₂, slot₂) = (t, slot)
          · cases h₂
            exact absurd ((hown k false hfailure).symm.trans (hown k true hsuccess)) (by simp)
          · exact (hbrought k false hfailure).2 t₂ slot₂ h₂ (hothers t₂ slot₂ k true h₂ hsuccess)
        · have hold := hothers t₁ slot₁ k false h₁ hfailure
          refine ⟨(hclear t₁ slot₁ k hold).1, fun t₂ slot₂ hsuccess => ?_⟩
          by_cases h₂ : (t₂, slot₂) = (t, slot)
          · cases h₂
            exact (hbrought k true hsuccess).2 t₁ slot₁ h₁ hold
          · exact (hclear t₁ slot₁ k hold).2 t₂ slot₂ (hothers t₂ slot₂ k true h₂ hsuccess)
    · -- The outcome of the activity is stored.
      rw [hupdate] at hstore
      have hwaits : ∀ t' slot' k success,
          Waits (step b (.resume t slot event)) t' slot' k success → Waits b t' slot' k success := by
        intro t' slot' k success hwait
        by_cases hne : (t', slot') = (t, slot)
        · cases hne
          have hbind := hown k success hwait
          rw [hnext] at hbind
          cases hbind
        · exact hothers t' slot' k success hne hwait
      refine ⟨fun t₁ slot₁ k hfailure => ?_, fun k r hr hsynced => .inr ?_⟩
      · obtain ⟨hnot, hnone⟩ := hclear t₁ slot₁ k (hwaits t₁ slot₁ k false hfailure)
        refine ⟨?_, fun t₂ slot₂ hsuccess => hnone t₂ slot₂ (hwaits t₂ slot₂ k true hsuccess)⟩
        rintro ⟨r, hr, hsynced⟩
        rw [hstore] at hr
        rcases isSynced_update hr hsynced with ⟨rfl, hstatus⟩ | hr
        · exact hnone t slot ⟨activity, hactivity, by rw [hto, hstatus]; rfl⟩
        · exact hnot ⟨r, hr, hsynced⟩
      · rw [hstore]
        refine kept_update hr hsynced fun hk => ?_
        by_contra hstatus
        have hwait : Waits b t slot k false :=
          ⟨activity, hactivity, by rw [hto, decide_eq_false hstatus, hk]⟩
        exact (hclear t slot k hwait).1 ⟨r, hr, hsynced⟩

theorem enqueue_store {store : Store} {now : Nat} {uuid : IdempotencyKey} {input : ReviewInput} :
    (∀ k r, store.record k = some r → (enqueueLessonReview now uuid input store).2.record k = some r) ∧
      ∀ k r, (enqueueLessonReview now uuid input store).2.record k = some r →
        r.status = .synced → store.record k = some r := by
  unfold enqueueLessonReview
  cases hold : store.record input.operationKey with
  | some existing => exact ⟨fun _ _ h => h, fun _ _ h _ => h⟩
  | none =>
    dsimp only
    refine ⟨fun k r hr => ?_, fun k r hr hsynced => ?_⟩
    · rw [Store.put_record, if_neg]
      · exact hr
      · intro hk
        have hkey : k = input.operationKey := hk
        rw [hkey, hold] at hr
        cases hr
    · rw [Store.put_record] at hr
      split at hr
      · cases hr
        cases hsynced
      · exact hr

theorem step_fetch (hclear : Clear b) (t n endpoint lessonId wordId body now uuid) :
    Clear (fetch b t n endpoint lessonId wordId body now uuid) ∧
      Kept b (fetch b t n endpoint lessonId wordId body now uuid) := by
  unfold fetch
  split
  · rename_i session payload _ _ hidle
    obtain ⟨hkept, hback⟩ := @enqueue_store b.store now uuid
      ⟨session.userId, endpoint, lessonId, wordId, payload, payload.stringify⟩
    refine ⟨hclear.mono ?_ ?_, fun k r hr hsynced => .inr ⟨r, hkept k r hr, hsynced, rfl⟩⟩
    · rintro t' slot' k success ⟨activity, hactivity, hto⟩
      refine ⟨activity, ?_, hto⟩
      by_cases ht : t' = t
      · subst ht
        by_cases hslot : slot' = .live n
        · simp only [Browser.set, Tab.set, hslot, if_true] at hactivity
          cases hactivity
          cases hto
        · simpa [Browser.set, Tab.set, hslot] using hactivity
      · simpa [Browser.set, ht] using hactivity
    · rintro k ⟨r, hr, hsynced⟩
      exact ⟨r, hback k r hr hsynced, hsynced⟩
  · exact ⟨hclear, Kept.of_eq rfl⟩

theorem clear_set (hclear : Clear b) {t : TabId} {tab : Tab}
    (h : ∀ slot activity, tab.activity slot = some activity →
      (b.tab t).activity slot = some activity ∨ toStore activity = none) : Clear (b.set t tab) := by
  refine hclear.mono ?_ fun k hs => hs
  rintro t' slot k success ⟨activity, hactivity, hto⟩
  by_cases ht : t' = t
  · subst ht
    simp only [Browser.set, if_true] at hactivity
    rcases h slot activity hactivity with hold | hnone
    · exact ⟨activity, hold, hto⟩
    · rw [hnone] at hto
      cases hto
  · simp only [Browser.set, if_neg ht] at hactivity
    exact ⟨activity, hactivity, hto⟩

/-- An orderly step keeps what is stored as synced. -/
theorem step_kept (c : Command) (hclear : Clear b) (horderly : Orderly b c) :
    Clear (step b c) ∧ Kept b (step b c) := by
  cases c with
  | setSession t session => exact ⟨clear_set hclear fun _ _ h => .inl h, Kept.of_eq rfl⟩
  | setOnline t online => exact ⟨clear_set hclear fun _ _ h => .inl h, Kept.of_eq rfl⟩
  | close t => exact ⟨clear_set hclear fun _ _ h => (nomatch h), Kept.of_eq rfl⟩
  | prune now =>
    refine ⟨hclear.mono (fun _ _ _ _ h => h) ?_, fun k r hr hsynced => ?_⟩
    · rintro k ⟨r, hr, hsynced⟩
      exact ⟨r, (Option.filter_eq_some_iff.1 hr).1, hsynced⟩
    · change (pruneSyncedLessonReviews now b.store).record k = none ∨
        ∃ r', (pruneSyncedLessonReviews now b.store).record k = some r' ∧ _
      rw [pruneSyncedLessonReviews, Store.delete_record, hr, Option.filter_some]
      split
      · exact .inr ⟨r, rfl, hsynced, rfl⟩
      · exact .inl rfl
  | fetch t n endpoint lessonId wordId body now uuid =>
    exact step_fetch hclear t n endpoint lessonId wordId body now uuid
  | syncPendingReviews t =>
    simp only [step]
    split
    · split
      · refine ⟨clear_set hclear fun slot activity h => ?_, Kept.of_eq rfl⟩
        simp only [Tab.set] at h
        split at h
        · cases h
          exact .inr rfl
        · exact .inl h
      · exact ⟨hclear, Kept.of_eq rfl⟩
    · exact ⟨hclear, Kept.of_eq rfl⟩
  | resume t slot event => exact step_resume hclear horderly

end Step

section Runs

theorem clear_idle (h : ∀ t slot, (b.tab t).activity slot = none) : Clear b := by
  rintro t slot k ⟨activity, hactivity, -⟩
  rw [h t slot] at hactivity
  cases hactivity

theorem replay_clear (hclear : Clear b) {history : List Command}
    (h : EachStep step Orderly b history) : Clear (replay step b history) := by
  induction history generalizing b with
  | nil => exact hclear
  | cons c rest ih => exact ih (step_kept c hclear h.1).1 h.2

theorem eachStep_append {before after : List Command}
    (h : EachStep step Orderly b (before ++ after)) :
    EachStep step Orderly b before ∧ EachStep step Orderly (replay step b before) after := by
  induction before generalizing b with
  | nil => exact ⟨trivial, h⟩
  | cons c rest ih =>
    obtain ⟨hrest, hafter⟩ := ih h.2
    exact ⟨⟨h.1, hrest⟩, hafter⟩

theorem synced_until_pruned (hclear : Clear b) {k : OperationKey} {r : StoredReview}
    (hr : b.store.record k = some r) (hsynced : r.status = .synced) {history : List Command}
    (h : EachStep step Orderly b history) :
    (∃ gone, gone <+: history ∧ (replay step b gone).store.record k = none) ∨
      ∃ r', (replay step b history).store.record k = some r' ∧ r'.status = .synced ∧
        r'.idempotencyKey = r.idempotencyKey := by
  induction history generalizing b r with
  | nil => exact .inr ⟨r, hr, hsynced, rfl⟩
  | cons c rest ih =>
    obtain ⟨hclear', hkept⟩ := step_kept c hclear h.1
    rcases hkept k r hr hsynced with hgone | ⟨r', hr', hsynced', hkey⟩
    · exact .inl ⟨[c], ⟨rest, rfl⟩, hgone⟩
    · rcases ih hclear' hr' hsynced' h.2 with ⟨gone, hprefix, hgone⟩ | ⟨r'', hr'', hsynced'', hkey'⟩
      · exact .inl ⟨c :: gone, List.cons_prefix_cons.2 ⟨rfl, hprefix⟩, hgone⟩
      · exact .inr ⟨r'', hr'', hsynced'', hkey'.trans hkey⟩

/-- From a browser without open tabs: a review that has been stored as synced stays so
until it is pruned, if every step is orderly. -/
theorem synced_terminal (hidle : ∀ t slot, (b.tab t).activity slot = none)
    {before after : List Command} (h : EachStep step Orderly b (before ++ after))
    {k : OperationKey} {r : StoredReview} (hr : (replay step b before).store.record k = some r)
    (hsynced : r.status = .synced) :
    (∃ gone, gone <+: after ∧ (replay step b (before ++ gone)).store.record k = none) ∨
      ∃ r', (replay step b (before ++ after)).store.record k = some r' ∧ r'.status = .synced ∧
        r'.idempotencyKey = r.idempotencyKey := by
  obtain ⟨hbefore, hafter⟩ := eachStep_append h
  have hlast := synced_until_pruned (replay_clear (clear_idle hidle) hbefore) hr hsynced hafter
  simpa only [replay, List.foldl_append] using hlast

/-- A transaction, or a step that needs none, brings no outcome. -/
theorem orderly_proceed (t : TabId) (slot : Slot) (now : Nat) :
    Orderly b (.resume t slot (.proceed now)) := by
  intro activity k success _ houtcome
  cases activity with
  | answered record changes caught => cases caught <;> cases houtcome
  | _ => cases houtcome

/-- The review of one card, as a tab that shows it sends it. -/
def knownCard : Json := .object [("lessonVersion", .integer 1), ("rating", .string "known"),
  ("answerMode", .string "study"), ("timezoneOffsetMinutes", .integer 0)]

def cardReview : StoredReview where
  idempotencyKey := 7
  userId := 0
  lessonId := 0
  wordId := 1
  lessonVersion := 1
  requestBody := knownCard
  status := .synced
  attempts := 1
  endpoint := "/review"
  createdAt := 0
  updatedAt := 1

/-- A tab opens the card whose review is synced, sends it again, and a day passes. -/
def openedAgain : List Command :=
  [.setSession 0 (some ⟨0, 0⟩), .fetch 0 0 "/review" 0 1 knownCard 5 8,
    .resume 0 (.live 0) (.proceed 5), .prune 86400001]

theorem openedAgain_kept :
    (∃ gone, gone <+: openedAgain ∧
      (replay step { store := Store.empty.put cardReview } ([] ++ gone)).store.record
        cardReview.operationKey = none) ∨
      ∃ r', (replay step { store := Store.empty.put cardReview } ([] ++ openedAgain)).store.record
        cardReview.operationKey = some r' ∧ r'.status = .synced ∧
        r'.idempotencyKey = cardReview.idempotencyKey :=
  synced_terminal (fun _ _ => rfl)
    (show EachStep step Orderly { store := Store.empty.put cardReview } ([] ++ openedAgain) from
      ⟨trivial, trivial, orderly_proceed 0 (.live 0) 5, trivial, trivial⟩) rfl rfl

def storedStatus (b : Browser) : Option (ReviewOutboxState × IdempotencyKey) :=
  (b.store.record cardReview.operationKey).map fun r => (r.status, r.idempotencyKey)

/-- Two tabs send the review at one time, and the first has its answer. -/
def twoTabs : List Command :=
  [.setSession 0 (some ⟨0, 0⟩), .setSession 1 (some ⟨0, 0⟩),
    .fetch 0 0 "/review" 0 1 knownCard 0 7, .fetch 1 0 "/review" 0 1 knownCard 0 8,
    .resume 0 (.live 0) (.proceed 0), .resume 1 (.live 0) (.proceed 0),
    .resume 0 (.live 0) (.response { status := 200 }), .resume 0 (.live 0) (.proceed 1)]

/-- The answer to the second is lost. -/
def lostAnswer : List Command :=
  [.resume 1 (.live 0) (.networkFailure "Failed to fetch"), .resume 1 (.live 0) (.proceed 2)]

theorem lostAnswer_pending :
    storedStatus (replay step {} twoTabs) = some (.synced, 7) ∧
    storedStatus (replay step {} (twoTabs ++ lostAnswer)) = some (.pending, 7) := by
  constructor <;> decide +kernel

end Runs

end SyncedReviews
