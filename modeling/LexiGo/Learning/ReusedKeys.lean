import LexiGo.Learning.LessonOrder

/-! Reviews that are turned down because their key belongs to another request. The
key is looked up before the review and bound after it, each in a transaction of its
own; whoever finds it bound at the second place has reviewed already. -/
namespace ReusedKeys
open RowStore TransactionProgram Interleaving CommitContract CommitNotes RunSoundness
open AnswerJudgement Scheduler LearningSchema LessonRepository LessonCreation
open LessonReviewIdempotency LearningService LearningMachine LearningContract LearningRuns
open RequestNotes LessonOrder GoText Function

variable {unicode : Unicode} {thorough : Prop} {n : Note} {s s' : Learning}
variable {allow : Nat → List Note → LearningWorld → LearningWorld → Prop}
variable {db : LearningDb} {c c' : LearningConfig} {i : Nat}

section Responses

/-- The response is one to a review of the lesson as the request names it. -/
def Suited (l : LessonId) (version : Nat) (response : LessonReviewResult) : Prop :=
  response.lessonId = l ∧ response.lessonVersion = version + 1

/-- The responses kept are to the requests they are kept for. -/
def KeptSuited (s : Learning) : Prop :=
  ∀ u k r, s.kept u k = some r →
    Suited r.requestHash.lessonId r.requestHash.request.lessonVersion r.response

/-- What a note tells of a response to its request. -/
def NoteSuited : Note → Prop
  | .reviewed call result _ => Suited call.lessonId call.request.lessonVersion result
  | .recovered call (some found) => found.lesson.version = call.request.lessonVersion + 1
  | .reloaded call (.replayed stored) => Suited call.lessonId call.request.lessonVersion stored
  | _ => True

theorem loadedFrom_replayed {call : ReviewCall} {now : Instant} {kept : Option IdempotencyRow}
    {stored : LessonReviewResult} (h : loadedFrom call now kept = .replayed stored) :
    ∃ r, kept = some r ∧ r.requestHash = call.fingerprint ∧ r.response = stored := by
  unfold loadedFrom at h
  split at h
  · cases h
  · rename_i r
    split_ifs at h with hexpired hreused
    cases h
    exact ⟨r, rfl, not_not.1 hreused, rfl⟩

theorem step_suited (h : Step unicode thorough n s s') (hs : KeptSuited s) : NoteSuited n := by
  cases h with
  | @reviewed s s' call lesson item a now e progress _ _ hversion _ _ _ _ _ _ _ =>
    exact ⟨rfl, by simp [lessonReviewResult, hversion]⟩
  | @recovered s call found hfound =>
    cases found with
    | none => exact trivial
    | some snapshot => exact ((hfound snapshot).1 rfl).version
  | @reloaded s call k now _ =>
    generalize hload : loadedFrom call now (s.kept call.userId k) = o
    cases o with
    | replayed stored =>
      obtain ⟨r, hr, hhash, rfl⟩ := loadedFrom_replayed hload
      have hsuited := hs call.userId k r hr
      rw [hhash] at hsuited
      exact hsuited
    | absent | expired | reused => exact trivial
  | _ => exact trivial

theorem recovered_some {call : ReviewCall} {found : Option RecoverySnapshot}
    {response : LessonReviewResult} (h : recovered unicode call found = .ok (some response)) :
    ∃ snapshot reviewedAt, found = some snapshot ∧
      snapshot.item.rating = some call.request.rating ∧
      snapshot.item.reviewedAt = some reviewedAt ∧
      snapshot.item.position < snapshot.lesson.currentIndex ∧
      response = RecoverySnapshot.result unicode snapshot call reviewedAt := by
  cases found with
  | none => cases h
  | some snapshot =>
    dsimp only [recovered] at h
    split at h
    · rename_i rating reviewedAt hrating hreviewed
      split_ifs at h with hother
      · cases h
      simp only [Bool.or_eq_true, decide_eq_true_eq, not_or, not_not, not_le] at hother
      obtain ⟨rfl, hpos⟩ := hother
      cases h
      exact ⟨snapshot, reviewedAt, rfl, hrating, hreviewed, hpos, rfl⟩
    · cases h

/-- A call that has got a response has one that suits it. -/
theorem obtained_suited {call : ReviewCall} {response : LessonReviewResult} {past : List Note}
    (h : Obtained unicode call response past) (hpast : ∀ n ∈ past, NoteSuited n) :
    Suited call.lessonId call.request.lessonVersion response := by
  cases h with
  | reviewed _ => exact hpast _ List.mem_cons_self
  | @recovered o found _ hfound =>
    obtain ⟨snapshot, reviewedAt, rfl, -, -, -, rfl⟩ := recovered_some hfound
    have hnote : NoteSuited (.recovered call (some snapshot)) := hpast _ List.mem_cons_self
    exact ⟨rfl, hnote⟩

theorem step_keptSuited (h : Step unicode thorough n s s') (hs : KeptSuited s)
    (hbound : ∀ call response swept, n = .bound call response swept →
      Suited call.lessonId call.request.lessonVersion response) : KeptSuited s' := by
  intro u k r hr
  cases h with
  | @bound s call k' response swept now _ _ _ _ =>
    by_cases hk : u = call.userId ∧ k = k'
    · obtain ⟨rfl, rfl⟩ := hk
      rw [show ({ s with kept := _ } : Learning).kept call.userId k = _ from updateAt_self _ _ _ _] at hr
      cases hr
      exact hbound call response swept rfl
    · have hold : s.sweep swept u k = some r := by simpa [updateAt, hk] using hr
      exact hs u k r (Option.filter_eq_some_iff.1 hold).1
  | insertLost _ _ _ _ => exact hs u k r (Option.filter_eq_some_iff.1 hr).1
  | wordDeleted _ _ => exact hs u k r (Option.filter_eq_some_iff.1 hr).1
  | reviewed _ _ _ _ _ _ _ _ _ heq =>
    rw [heq] at hr
    exact hs u k r hr
  | _ => exact hs u k r hr

end Responses

section Runs

abbrev LearningTracked (unicode : Unicode) (c : LearningConfig) : Prop :=
  Tracked (Told unicode) (Reported unicode) c

theorem learning_tracked (h : Run (program unicode) allow (start db) c) :
    LearningTracked unicode c :=
  (tracked_start db).run program_follows h

/-- The commits of a review that have to do with its key, or with a review before it. -/
def isKeyed : Note → Bool
  | .loaded _ _ | .recovered _ _ | .bound _ _ _ | .insertLost _ _ | .reloaded _ _ => true
  | _ => false

theorem step_keyed (h : Step unicode thorough n s s') (hn : isKeyed n = true) : Unchanged s s' := by
  cases h with
  | loaded _ | recovered _ | bound _ _ _ _ | insertLost _ _ _ _ | reloaded _ =>
    exact ⟨rfl, rfl, rfl, rfl⟩
  | _ => cases hn

/-- Only a review of a lesson makes such commits, in the course of it. -/
theorem told_keyed {op : Op} {past : List Note} (h : Told unicode op [n] past)
    (hn : isKeyed n = true ∨ ∃ call result row, n = .reviewed call result row) :
    ∃ call, Course unicode call (n :: past) := by
  cases op with
  | reviewLessonWord raw =>
    obtain ⟨call, n', -, heq, hcourse⟩ := h
    obtain rfl : n = n' := by simpa using heq
    exact ⟨call, hcourse⟩
  | createLesson u request =>
    rcases h with hnil | ⟨-, l, heq | ⟨words, heq⟩⟩
    · cases hnil
    · cases heq
      rcases hn with hn | ⟨_, _, _, hn⟩ <;> cases hn
    · cases heq
      rcases hn with hn | ⟨_, _, _, hn⟩ <;> cases hn
  | activeLesson u => cases h
  | discardLesson u l version =>
    obtain ⟨-, heq⟩ := h
    cases heq
    rcases hn with hn | ⟨_, _, _, hn⟩ <;> cases hn
  | reviewWord u w request =>
    obtain ⟨-, e, heq⟩ := h
    cases heq
    rcases hn with hn | ⟨_, _, _, hn⟩ <;> cases hn
  | deleteCustomWord u w | deleteCustomPhrase u w =>
    obtain ⟨-, seen, heq⟩ := h
    cases heq
    rcases hn with hn | ⟨_, _, _, hn⟩ <;> cases hn

/-- A step of a run commits nothing, or one step of the machine with its note. -/
theorem step_commits (sees : Thorough thorough allow) (hlinked : Linked (view db))
    (h : Run (program unicode) allow (start db) c) {a : Action Op}
    (hs : step (program unicode) c a = some c')
    (hallow : ∀ i notes, published c a = some (i, notes) → allow i notes c.world c'.world) :
    (c'.world.log = c.world.log ∧ view c'.world.db = view c.world.db) ∨
      ∃ i n, published c a = some (i, [n]) ∧ c'.world.log = (i, n) :: c.world.log ∧
        Step unicode thorough n (view c.world.db) (view c'.world.db) := by
  obtain ⟨safe, -⟩ := run_history sees hlinked h
  rcases safe.commits hs hallow with ⟨-, hworld⟩ | ⟨i, notes, hpublished, hc⟩
  · exact .inl (by rw [hworld]; exact ⟨rfl, rfl⟩)
  rcases hc.step with ⟨rfl, hsame⟩ | ⟨n, rfl, hstep⟩
  · exact .inl ⟨hc.log, hsame⟩
  · exact .inr ⟨i, n, hpublished, hc.log, hstep⟩

/-- What a run has kept and noted suits the requests. -/
structure Logged (w : LearningWorld) : Prop where
  kept : KeptSuited (view w.db)
  notes : ∀ entry ∈ w.log, NoteSuited entry.2

theorem run_logged (hlinked : Linked (view db)) (hkept : KeptSuited (view db))
    (h : Run (program unicode) allow (start db) c) : Logged c.world := by
  induction h with
  | refl => exact ⟨hkept, fun entry he => by cases he⟩
  | @tail c₁ c₂ a hrun hs hallow ih =>
    rcases step_commits thorough_false hlinked hrun hs hallow with
      ⟨hlog, hsame⟩ | ⟨i, n, hpublished, hlog, hstep⟩
    · exact ⟨hsame ▸ ih.kept, hlog ▸ ih.notes⟩
    · refine ⟨step_keptSuited hstep ih.kept ?_, ?_⟩
      · rintro call response swept rfl
        obtain ⟨p, -, htold⟩ := (learning_tracked hrun).published hpublished
        obtain ⟨call', hcourse⟩ := told_keyed htold (.inl rfl)
        cases hcourse with
        | bound hobtained =>
          exact obtained_suited hobtained fun n hn => ih.notes (i, n) (mem_ownNotes.1 hn)
      · intro entry he
        rw [hlog] at he
        rcases List.mem_cons.1 he with rfl | he
        · exact step_suited hstep ih.kept
        · exact ih.notes entry he

/-- A call that has reviewed, and has lost the insert under its key, finds at its next
look the response to an equal request, and that still in force. -/
def EqualKept (i : Nat) (notes : List Note) (w _ : LearningWorld) : Prop :=
  ∀ call o result row, .reloaded call o ∈ notes → (i, .reviewed call result row) ∈ w.log →
    o ≠ .expired ∧ ∃ k r, call.key = some k ∧ (view w.db).kept call.userId k = some r ∧
      r.requestHash = call.fingerprint

theorem reloaded_replayed {call : ReviewCall} {o : Loaded} {k : IdempotencyKey} {r : IdempotencyRow}
    (h : Step unicode thorough (.reloaded call o) s s') (hkey : call.key = some k)
    (hr : s.kept call.userId k = some r) (hhash : r.requestHash = call.fingerprint)
    (hforce : o ≠ .expired) : ∃ stored, o = .replayed stored := by
  cases h with
  | @reloaded s call k' now hk =>
    obtain rfl : k = k' := Option.some.inj (hkey.symm.trans hk)
    rw [hr] at hforce ⊢
    unfold loadedFrom at hforce ⊢
    dsimp only at hforce ⊢
    split_ifs at hforce ⊢ with hexpired hreused
    · exact absurd rfl hforce
    · exact absurd hhash hreused
    · exact ⟨_, rfl⟩

/-- What a call that has reviewed finds at its second look. -/
def Rejoined (w : LearningWorld) : Prop :=
  ∀ i call o result row, (i, .reloaded call o) ∈ w.log → (i, .reviewed call result row) ∈ w.log →
    ∃ stored, o = .replayed stored

theorem run_rejoined (hlinked : Linked (view db))
    (h : Run (program unicode) EqualKept (start db) c) : Rejoined c.world := by
  induction h with
  | refl => exact fun _ _ _ _ _ hmem => by cases hmem
  | @tail c₁ c₂ a hrun hs hallow ih =>
    rcases step_commits thorough_false hlinked hrun hs hallow with
      ⟨hlog, -⟩ | ⟨j, n, hpublished, hlog, hstep⟩
    · unfold Rejoined
      rw [hlog]
      exact ih
    · obtain ⟨p, -, htold⟩ := (learning_tracked hrun).published hpublished
      intro i call o result row hreloaded hreviewed
      rw [hlog] at hreloaded hreviewed
      rcases List.mem_cons.1 hreloaded with heq | hold
      · obtain ⟨rfl, rfl⟩ := Prod.mk.inj heq
        have hbefore : (i, .reviewed call result row) ∈ c₁.world.log :=
          (List.mem_cons.1 hreviewed).resolve_left fun heq => by cases heq
        obtain ⟨hforce, k, r, hkey, hr, hhash⟩ :=
          hallow i _ hpublished call o result row List.mem_cons_self hbefore
        exact reloaded_replayed hstep hkey hr hhash hforce
      · rcases List.mem_cons.1 hreviewed with heq | hbefore
        · obtain ⟨rfl, rfl⟩ := Prod.mk.inj heq
          have hmem : .reloaded call o ∈ ownNotes i c₁.world.log := mem_ownNotes.2 hold
          obtain ⟨call', hcourse⟩ := told_keyed htold (.inr ⟨_, _, _, rfl⟩)
          -- nothing but the first look comes before a review
          generalize ownNotes i c₁.world.log = past at hcourse hmem
          cases hcourse with
          | keyless _ => cases hmem
          | reviewed _ => simp at hmem
        · exact ih i call o result row hold hbefore

end Runs

section Races

theorem twoWords_kept : KeptSuited (view twoWords) := fun _ _ r hr =>
  absurd hr (Option.some_ne_none r).symm

/-- Requests to review an item of lesson 7, all under key 9. -/
def keyed (w : WordId) (version : Nat) : Op :=
  .reviewLessonWord ⟨1, 7, w, { revealed with lessonVersion := version }, some 9⟩

/-- Lesson 7 is made of two words. -/
def lessonMade : List (Action Op) :=
  .start (.createLesson 1 bothWords) :: steps 0 ([1000, 0, 0, 0, 0, 7] ++ List.replicate 19 0)

/-- The steps of a review up to its commit, with event `e`. -/
def reviewing (i e : Nat) : List (Action Op) :=
  steps i (List.replicate 10 0 ++ [2000000, 0, e] ++ List.replicate 13 0)

/-- A review keeps its response, and another request comes with its key. -/
def keyTaken : List (Action Op) :=
  lessonMade ++ .start (keyed 1 1) :: steps 1 [2000000, 0] ++ reviewing 1 5 ++
    steps 1 (2000000 :: List.replicate 9 0) ++ .start (keyed 2 2) :: steps 2 [2000000]

def isReloaded : Note → Bool
  | .reloaded _ _ => true
  | _ => false

/-- Commits that are not of a second look at a key. -/
def Unreloaded (_ : Nat) (notes : List Note) (_ _ : LearningWorld) : Prop :=
  ∀ n ∈ notes, isReloaded n = false

instance (i : Nat) (notes : List Note) (w w' : LearningWorld) : Decidable (Unreloaded i notes w w') :=
  inferInstanceAs (Decidable (∀ n ∈ notes, isReloaded n = false))

theorem equalKept_of_unreloaded (i : Nat) (notes : List Note) (w w' : LearningWorld)
    (h : Unreloaded i notes w w') : EqualKept i notes w w' :=
  fun _ _ _ _ hmem _ => (Bool.false_ne_true (h _ hmem).symm).elim

/-- Two requests have found the key free, and the second is about to commit its review. -/
def keyContended : List (Action Op) :=
  lessonMade ++ .start (keyed 1 1) :: steps 1 [0, 0] ++ .start (keyed 2 2) :: steps 2 [0, 0] ++
    reviewing 1 5 ++ reviewing 2 6

/-- The first binds the key, and the second is told that its key is taken. -/
def keyLost : List (Action Op) := steps 1 (2000000 :: List.replicate 9 0) ++ steps 2 (List.replicate 7 0)

end Races

end ReusedKeys
