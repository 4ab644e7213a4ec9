import LexiGo.Learning.LearningMachine
import LexiGo.ReadCommitted.RowStatements

/-! What every commit of the learning services may do, and what a request can
rely on while it holds a lock. -/
namespace LearningContract
open RowStore TransactionProgram Interleaving CommitContract RowStatements RunSoundness
open AnswerJudgement Scheduler LearningSchema LessonRepository LessonCreation
open LessonReviewIdempotency LearningMachine Function GoText

abbrev LearningWorld := World Row Note

/-- The tables of the database. -/
def view (db : LearningDb) : Learning where
  word := fun w => db.lookup (.word w)
  userWord := fun u w => db.lookup (.userWord u w)
  lesson := fun l => db.lookup (.lesson l)
  item := fun l w => db.lookup (.item l w)
  event := fun e => db.lookup (.event e)
  kept := fun u k => db.lookup (.idempotency u k)

section Views
variable (db : LearningDb)

theorem view_congr {db db' : LearningDb} (h : ∀ k, db.lookup k = db'.lookup k) :
    view db = view db' := by
  ext1 <;> funext x <;> simp [view, h]

@[simp] theorem view_set_userWord (u : UserId) (w : WordId) (v : Option UserWordRow) :
    view (set (Key.userWord u w) v db) =
      { view db with userWord := updateAt (view db).userWord u w v } := by
  ext1 <;> funext x
  case userWord =>
    funext y
    by_cases heq : x = u ∧ y = w
    · obtain ⟨rfl, rfl⟩ := heq; simp [view]
    · simp [view, updateAt_ne _ _ heq, lookup_set_ne, heq]
  all_goals simp [view, lookup_set_ne]

@[simp] theorem view_set_item (l : LessonId) (w : WordId) (v : Option ItemRow) :
    view (set (Key.item l w) v db) = { view db with item := updateAt (view db).item l w v } := by
  ext1 <;> funext x
  case item =>
    funext y
    by_cases heq : x = l ∧ y = w
    · obtain ⟨rfl, rfl⟩ := heq; simp [view]
    · simp [view, updateAt_ne _ _ heq, lookup_set_ne, heq]
  all_goals simp [view, lookup_set_ne]

@[simp] theorem view_set_idempotency (u : UserId) (k : IdempotencyKey) (v : Option IdempotencyRow) :
    view (set (Key.idempotency u k) v db) =
      { view db with kept := updateAt (view db).kept u k v } := by
  ext1 <;> funext x
  case kept =>
    funext y
    by_cases heq : x = u ∧ y = k
    · obtain ⟨rfl, rfl⟩ := heq; simp [view]
    · simp [view, updateAt_ne _ _ heq, lookup_set_ne, heq]
  all_goals simp [view, lookup_set_ne]

@[simp] theorem view_set_lesson (l : LessonId) (v : Option LessonRow) :
    view (set (Key.lesson l) v db) = { view db with lesson := update (view db).lesson l v } := by
  ext1 <;> funext x
  case lesson =>
    by_cases heq : x = l
    · subst heq; simp [view]
    · simp [view, lookup_set_ne, heq]
  all_goals simp [view, lookup_set_ne]

@[simp] theorem view_set_event (e : EventId) (v : Option EventRow) :
    view (set (Key.event e) v db) = { view db with event := update (view db).event e v } := by
  ext1 <;> funext x
  case event =>
    by_cases heq : x = e
    · subst heq; simp [view]
    · simp [view, lookup_set_ne, heq]
  all_goals simp [view, lookup_set_ne]

@[simp] theorem view_set_word (w : WordId) (v : Option WordRow) :
    view (set (Key.word w) v db) = { view db with word := update (view db).word w v } := by
  ext1 <;> funext x
  case word =>
    by_cases heq : x = w
    · subst heq; simp [view]
    · simp [view, lookup_set_ne, heq]
  all_goals simp [view, lookup_set_ne]

theorem mem_itemsOf {l : LessonId} {p : ItemRow → Bool} {k : Key} :
    k ∈ itemsOf l p db ↔ ∃ w, k = .item l w ∧ w ∈ (view db).itemWords l p := by
  rw [itemsOf, mem_rowsWhere]
  constructor
  · rintro ⟨r, hr, hp⟩
    cases k with
    | item l' w =>
      obtain ⟨rfl, hpr⟩ : l' = l ∧ p r = true := by simpa [items] using hp
      exact ⟨w, rfl, r, hr, hpr⟩
    | _ => simp [items] at hp
  · rintro ⟨w, rfl, r, hr, hp⟩
    exact ⟨r, hr, by simp [items, hp]⟩

theorem itemsOf_length (l : LessonId) (p : ItemRow → Bool) :
    (itemsOf l p db).length = ((view db).itemWords l p).ncard := by
  have image : Key.item l '' (view db).itemWords l p = ((itemsOf l p db).toFinset : Set Key) := by
    ext k
    simp only [Set.mem_image, List.coe_toFinset, Set.mem_ofPred_eq, mem_itemsOf]
    constructor
    · rintro ⟨w, hw, rfl⟩
      exact ⟨w, rfl, hw⟩
    · rintro ⟨w, rfl, hw⟩
      exact ⟨w, hw, rfl⟩
  have injective : Function.Injective (Key.item l) := by
    intro w w' h
    cases h
    rfl
  have nodup : (itemsOf l p db).Nodup := rowsWhere_nodup _ _
  rw [← Set.ncard_image_of_injective _ injective, image, Set.ncard_coe_finset,
    List.toFinset_card_of_nodup nodup]

theorem min?_getD (ns : List Nat) : ns.min?.getD 0 = sInf {n | n ∈ ns} := by
  cases h : ns.min? with
  | none =>
    rw [List.min?_eq_none_iff] at h
    simp [h]
  | some n =>
    rw [List.min?_eq_some_iff] at h
    have least : sInf {n | n ∈ ns} ∈ {n | n ∈ ns} := Nat.sInf_mem ⟨n, h.1⟩
    exact le_antisymm (h.2 _ least) (Nat.sInf_le h.1)

theorem mem_positions {l : LessonId} {p : ItemRow → Bool} {n : Nat} :
    n ∈ positions db (itemsOf l p db) ↔
      ∃ w r, (view db).item l w = some r ∧ p r = true ∧ r.position = n := by
  rw [positions, List.mem_filterMap]
  constructor
  · rintro ⟨k, hk, hn⟩
    obtain ⟨w, rfl, r, hr, hp⟩ := (mem_itemsOf db).mp hk
    have hlookup : db.lookup (Key.item l w) = some r := hr
    refine ⟨w, r, hr, hp, ?_⟩
    simpa [hlookup] using hn
  · rintro ⟨w, r, hr, hp, rfl⟩
    have hlookup : db.lookup (Key.item l w) = some r := hr
    exact ⟨.item l w, (mem_itemsOf db).mpr ⟨w, rfl, r, hr, hp⟩, by simp [hlookup]⟩

theorem lessonProgress_view (l : LessonId) : lessonProgress l db = (view db).progress l := by
  simp only [lessonProgress, Learning.progress, itemsOf_length, min?_getD, mem_positions]

end Views

/-- What the items of a lesson are decides how far it has come. -/
theorem progress_congr {s s' : Learning} {l : LessonId} (h : ∀ w, s.item l w = s'.item l w) :
    s.progress l = s'.progress l := by
  simp only [Learning.progress, Learning.itemWords, h]

section Guards
variable (thorough : Prop)

/-- Referring to a word keeps it there; having it locked for deletion keeps new
rows that refer to it away. -/
structure WordGuard (w : WordId) (m : Mode) (s s' : Learning) : Prop where
  stays : (s.word w).isSome = true → (s'.word w).isSome = true
  items : m = .update → ∀ l, (s'.item l w).isSome = true → (s.item l w).isSome = true
  userWords : m = .update → ∀ u, (s'.userWord u w).isSome = true → (s.userWord u w).isSome = true
  events : m = .update → ∀ e r, s'.event e = some r → r.wordId = w → s.event e = some r
  kept : m = .update → ∀ u k r, s'.kept u k = some r → r.requestHash.wordId = w →
    s.kept u k = some r

def NoNewActive (u : UserId) (s s' : Learning) : Prop :=
  ∀ l r', s'.lesson l = some r' → r'.activeOf u = true →
    ∃ r, s.lesson l = some r ∧ r.activeOf u = true

/-- The items of a lesson stay while it is active and locked, if deletions are
as thorough as they are meant to be. -/
def ItemsStay (l : LessonId) (s s' : Learning) : Prop :=
  thorough → ∀ r, s.lesson l = some r → r.status = .active → ∀ w, s'.item l w = s.item l w

def Guard (m : Mode) (s s' : Learning) : Key → Prop
  | .word w => WordGuard w m s s'
  | .lesson l => m ≠ .keyShare → ItemsStay thorough l s s'
  | .activeLesson u => m = .update → NoNewActive u s s'
  | _ => True

end Guards

/-- A deletion that has seen every active lesson with an item for its word. -/
def SeesLessons (n : Note) (s : Learning) : Prop :=
  ∀ u w seen, n = .wordDeleted u w seen → ∀ l r, s.lesson l = some r → r.status = .active →
    (s.item l w).isSome = true → Key.lesson l ∈ seen

def learningContract (unicode : Unicode) (thorough : Prop)
    (allow : Nat → List Note → LearningWorld → LearningWorld → Prop) : Contract Row Note where
  inv w := Linked (view w.db)
  step _ notes w w' := (notes = [] ∧ view w'.db = view w.db) ∨
    ∃ n, notes = [n] ∧ Step unicode thorough n (view w.db) (view w'.db)
  allow := allow
  guard k m w w' := Guard thorough m (view w.db) (view w'.db) k

variable {unicode : Unicode} {thorough : Prop}
variable {allow : Nat → List Note → LearningWorld → LearningWorld → Prop}
variable {i : Nat} {t t' : Tx Row} {w w' w'' : LearningWorld} {n : Note}

abbrev LearningRely (unicode : Unicode) (thorough : Prop)
    (allow : Nat → List Note → LearningWorld → LearningWorld → Prop) (i : Nat) (t : Tx Row) :=
  Rely (learningContract unicode thorough allow) i t

/-- The locks that an operation needs to be published. -/
def Licensed (held : List (Key × Mode)) : Note → Prop
  | .lessonCreated u l words => (Key.activeLesson u, Mode.update) ∈ held ∧
      (Key.lesson l, Mode.update) ∈ held ∧ ∀ w ∈ words, (Key.word w, Mode.keyShare) ∈ held
  | .reviewed call _ _ => (Key.lesson call.lessonId, Mode.update) ∈ held ∧
      (Key.word call.wordId, Mode.keyShare) ∈ held
  | .wordReviewed _ w _ => (Key.word w, Mode.keyShare) ∈ held
  | .bound call _ _ => (Key.word call.wordId, Mode.keyShare) ∈ held
  | .wordDeleted _ w seen => (Key.word w, Mode.update) ∈ held ∧
      ∀ k ∈ seen, (k, Mode.noKeyUpdate) ∈ held
  | _ => True

theorem Guard.refl (m : Mode) (s : Learning) (k : Key) : Guard thorough m s s k := by
  cases k with
  | word w => exact ⟨id, fun _ _ => id, fun _ _ => id, fun _ _ _ hr _ => hr, fun _ _ _ _ hr _ => hr⟩
  | lesson l => exact fun _ _ _ _ _ _ => rfl
  | activeLesson u => exact fun _ _ r hr hu => ⟨r, hr, hu⟩
  | _ => trivial

theorem Licensed.names {held : List (Key × Mode)} {n : Note} {w : WordId}
    (h : Licensed held n) (hn : Names w n) : (Key.word w, Mode.keyShare) ∈ held := by
  cases n with
  | lessonCreated u l words => exact h.2.2 w hn
  | reviewed call result row => cases hn; exact h.2
  | wordReviewed u w' e => cases hn; exact h
  | bound call response swept => cases hn; exact h
  | _ => cases hn

theorem word_guarded {s s' : Learning} (step : Step unicode thorough n s s')
    (licensed : Licensed t.held n) {k : WordId} {m : Mode} (free : t.admits (.word k) m) :
    WordGuard k m s s' := by
  have unnamed : m = .update → ¬ Names k n := by
    rintro rfl hn
    cases free _ (licensed.names hn)
  refine ⟨step.word_stays ?_, fun hm l => step.item_back (unnamed hm), fun _ u => step.userWord_back,
    fun hm e r hr hw => step.event_back (unnamed hm) hr hw,
    fun hm u k r hr hw => step.kept_back (unnamed hm) hr hw⟩
  rintro u seen rfl
  have := free _ licensed.1
  cases m <;> cases this

theorem items_guarded {s s' : Learning} (step : Step unicode thorough n s s')
    (licensed : Licensed t.held n) (sees : thorough → SeesLessons n s) {l : LessonId} {m : Mode}
    (free : t.admits (.lesson l) m) (hm : m ≠ .keyShare) : ItemsStay thorough l s s' := by
  intro ht r hr hactive k
  refine step.items_stay hr ?_ ?_ k
  · rintro call result row rfl rfl
    have := free _ licensed.1
    cases m <;> cases this
  · rintro u k' seen rfl
    by_contra hitem
    have hmem := sees ht u k' seen rfl l r hr hactive (by simpa [Option.isSome_iff_ne_none] using hitem)
    have := free _ (licensed.2 _ hmem)
    cases m <;> simp_all [Mode.conflicts]

theorem active_guarded {s s' : Learning} (step : Step unicode thorough n s s')
    (licensed : Licensed t.held n) {u : UserId} {m : Mode} (free : t.admits (.activeLesson u) m)
    (hm : m = .update) : NoNewActive u s s' := by
  subst hm
  intro l r' hr hu
  refine step.active_back ?_ hr hu
  rintro l words rfl
  cases free _ licensed.1

theorem publishes (inv : Linked (view w.db))
    (step : Step unicode thorough n (view w.db) (view (t.visible w.db)))
    (licensed : Licensed t.held n) (sees : thorough → SeesLessons n (view w.db)) :
    Publishes (learningContract unicode thorough allow) i t [n] w := by
  refine ⟨step.linked inv, .inr ⟨n, rfl, step⟩, fun k m free => ?_⟩
  cases k with
  | word k => exact word_guarded step licensed free
  | lesson l => exact items_guarded step licensed sees free
  | activeLesson u => exact active_guarded step licensed free
  | _ => trivial

/-- A transaction that has written nothing and notes nothing. -/
theorem publishes_nothing (inv : Linked (view w.db)) (same : view (t.visible w.db) = view w.db) :
    Publishes (learningContract unicode thorough allow) i t [] w := by
  refine ⟨?_, .inl ⟨rfl, same⟩, fun k m _ => ?_⟩
  · change Linked (view (t.visible w.db))
    rw [same]
    exact inv
  · change Guard thorough m (view w.db) (view (t.visible w.db)) k
    rw [same]
    exact Guard.refl m _ k

theorem not_wordDeleted_sees {s : Learning} (h : ∀ u w seen, n ≠ .wordDeleted u w seen) :
    SeesLessons n s := fun u w seen heq => absurd heq (h u w seen)

/-- The commits of others, one by one, for a fact that each of them keeps. -/
theorem rely_view {P : Learning → Prop} (h : LearningRely unicode thorough allow i t w w')
    (keeps : ∀ n s s', Step unicode thorough n s s' → P s → P s') (hp : P (view w.db)) :
    P (view w'.db) := by
  have stable : Stable (learningContract unicode thorough allow) i t (fun v => P (view v.db)) := by
    intro v v' ho hv
    obtain ⟨j, notes, -, hc⟩ := ho.author
    rcases hc.step with ⟨-, hsame⟩ | ⟨n, -, hstep⟩
    · rw [hsame]; exact hv
    · exact keeps n _ _ hstep hv
  exact stable.rely h hp

theorem rely_word {k : WordId} {m : Mode} (h : LearningRely unicode thorough allow i t w w')
    (hk : (Key.word k, m) ∈ t.held) : WordGuard k m (view w.db) (view w'.db) := by
  have stable : Stable (learningContract unicode thorough allow) i t
      (fun v => WordGuard k m (view w.db) (view v.db)) := by
    intro v v' ho hv
    have hg : WordGuard k m (view v.db) (view v'.db) := ho.guard _ _ hk
    exact ⟨hg.stays ∘ hv.stays, fun hm l => hv.items hm l ∘ hg.items hm l,
      fun hm u => hv.userWords hm u ∘ hg.userWords hm u,
      fun hm e r hr hw => hv.events hm e r (hg.events hm e r hr hw) hw,
      fun hm u k r hr hw => hv.kept hm u k r (hg.kept hm u k r hr hw) hw⟩
  exact stable.rely h (@Guard.refl thorough m _ (.word k))

theorem rely_items {l : LessonId} {m : Mode} {r : LessonRow} (ht : thorough)
    (h : LearningRely unicode thorough allow i t w w') (hl : (Key.lesson l, m) ∈ t.held)
    (hm : m ≠ .keyShare) (hr : (view w.db).lesson l = some r) (hactive : r.status = .active)
    (k : WordId) : (view w'.db).item l k = (view w.db).item l k := by
  have stable : Stable (learningContract unicode thorough allow) i t (fun v =>
      (view v.db).lesson l = some r ∧ ∀ k, (view v.db).item l k = (view w.db).item l k) := by
    rintro v v' ho ⟨hv, hitems⟩
    have hg : m ≠ .keyShare → ItemsStay thorough l (view v.db) (view v'.db) := ho.guard _ _ hl
    refine ⟨(ho.rows _ _ hl hm).trans hv, fun k => ?_⟩
    rw [hg hm ht r hv hactive k, hitems]
  exact (stable.rely h ⟨hr, fun _ => rfl⟩).2 k

theorem rely_active {u : UserId} (h : LearningRely unicode thorough allow i t w w')
    (hu : (Key.activeLesson u, Mode.update) ∈ t.held) :
    NoNewActive u (view w.db) (view w'.db) := by
  have stable : Stable (learningContract unicode thorough allow) i t
      (fun v => NoNewActive u (view w.db) (view v.db)) := by
    intro v v' ho hv l r' hr hactive
    have hg : Mode.update = .update → NoNewActive u (view v.db) (view v'.db) := ho.guard _ _ hu
    obtain ⟨r, hr, hactive⟩ := hg rfl l r' hr hactive
    exact hv l r hr hactive
  exact stable.rely h fun l r hr hu => ⟨r, hr, hu⟩

abbrev Keeps (unicode : Unicode) (thorough : Prop)
    (allow : Nat → List Note → LearningWorld → LearningWorld → Prop) {α : Type}
    (p : LearningProg α) : Prop :=
  Transactional (learningContract unicode thorough allow) p

end LearningContract
