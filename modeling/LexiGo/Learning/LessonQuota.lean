import LexiGo.Learning.LessonSpread
import LexiGo.Learning.LessonTiers
import Mathlib.Data.Prod.Lex

/-! What a composed lesson holds: so many items that are not new, so many that are, the
first of either in the ordered queue, and a record that counts them. -/
namespace LessonQuota
open GoText AnswerJudgement Scheduler LearningSchema LessonComposer LessonSelection LessonTiers
  LessonSpread
open scoped List

/-- `composeLessonCandidates` as Go declares it, with a limit that may be negative and a
ratio that may be left out. -/
def composeWith (unicode : Unicode) (candidates : List LessonCandidate) (source : String)
    (limit : Int) (reviewRatio : Option Int) : List LessonCandidate × LessonComposition :=
  composeLessonCandidates unicode candidates source limit.toNat
    (normalizeLessonReviewRatio (reviewRatio.getD 70))

def wordQueue (candidates : List LessonCandidate) : List LessonCandidate :=
  sortLessonQueue (candidates.filter fun candidate => candidate.kind ≠ .phrase)

def phraseQueue (candidates : List LessonCandidate) : List LessonCandidate :=
  sortLessonQueue (candidates.filter fun candidate => candidate.kind = .phrase)

/-- The queue from which a lesson is taken. -/
def orderedQueue (candidates : List LessonCandidate) (source : String) : List LessonCandidate :=
  if source = "mixed" then
    composeMixedPriorityTiers (wordQueue candidates) (phraseQueue candidates) candidates.length
  else if source = "phrases" then phraseQueue candidates
  else wordQueue candidates

/-- The place of a candidate: by priority, then due date, then easiness, then id. -/
def place (c : LessonCandidate) : ℕ ×ₗ ℤ ×ₗ ℕ ×ₗ ℕ :=
  toLex (lessonCandidatePriority c, toLex (c.dueAt, toLex (c.easiness, c.wordId)))

theorem queueBefore_iff (c d : LessonCandidate) : queueBefore c d = true ↔ place c ≤ place d := by
  unfold queueBefore place
  rw [Prod.Lex.toLex_le_toLex, Prod.Lex.toLex_le_toLex, Prod.Lex.toLex_le_toLex]
  by_cases hp : lessonCandidatePriority c = lessonCandidatePriority d
  · by_cases hd : c.dueAt = d.dueAt
    · by_cases he : c.easiness = d.easiness
      · simp [hp, hd, he]
      · simp [hp, hd, he]
    · simp [hp, hd]
  · simp [hp]

theorem sortLessonQueue_sorted (queue : List LessonCandidate) :
    (sortLessonQueue queue).Pairwise fun c d => place c ≤ place d := by
  have : Std.Total fun c d : LessonCandidate => queueBefore c d = true := by
    constructor
    intro c d
    rw [queueBefore_iff, queueBefore_iff]
    exact le_total _ _
  have : IsTrans LessonCandidate fun c d => queueBefore c d = true := by
    constructor
    intro c d e
    rw [queueBefore_iff, queueBefore_iff, queueBefore_iff]
    exact le_trans
  refine (List.pairwise_insertionSort (fun c d => queueBefore c d = true) queue).imp ?_
  intro c d h
  exact (queueBefore_iff c d).1 h

theorem place_priority {c d : LessonCandidate} (h : place c ≤ place d) :
    lessonCandidatePriority c ≤ lessonCandidatePriority d := by
  rcases Prod.Lex.toLex_le_toLex.1 h with hlt | ⟨heq, -⟩
  · exact hlt.le
  · exact heq.le

/-! The queue. -/

variable (candidates : List LessonCandidate) (source : String)

theorem queues_length :
    (wordQueue candidates).length + (phraseQueue candidates).length = candidates.length := by
  rw [← List.length_append]
  exact (queues_perm candidates).length_eq

theorem queues_byKind : ByKind (wordQueue candidates) (phraseQueue candidates) := by
  constructor
  · intro c hc
    have := List.of_mem_filter ((sortLessonQueue_perm _).subset hc)
    cases hk : c.kind with
    | word => rfl
    | phrase => simp [hk] at this
  · intro c hc
    simpa using List.of_mem_filter ((sortLessonQueue_perm _).subset hc)

theorem orderedQueue_perm : orderedQueue candidates source ~ composedFrom candidates source := by
  unfold orderedQueue composedFrom
  split
  · rw [← queues_length]
    exact (composeMixedPriorityTiers_perm _ _).trans (queues_perm candidates)
  · split <;> exact sortLessonQueue_perm _

theorem orderedQueue_sorted :
    (orderedQueue candidates source).Pairwise fun c d =>
      lessonCandidatePriority c ≤ lessonCandidatePriority d := by
  unfold orderedQueue
  split
  · have := (composeMixedPriorityTiers_alternates (wordQueue candidates) (phraseQueue candidates)
      (queues_byKind candidates) candidates.length).1 (queues_length candidates).le
    exact this.2.1
  · split <;> exact (sortLessonQueue_sorted _).imp place_priority

theorem orderedQueue_place :
    if source = "mixed" then
      orderedQueue candidates source =
          composeMixedPriorityTiers (wordQueue candidates) (phraseQueue candidates)
            candidates.length ∧
        (wordQueue candidates).Pairwise (fun c d => place c ≤ place d) ∧
        (phraseQueue candidates).Pairwise fun c d => place c ≤ place d
    else (orderedQueue candidates source).Pairwise fun c d => place c ≤ place d := by
  unfold orderedQueue
  split
  · exact ⟨rfl, sortLessonQueue_sorted _, sortLessonQueue_sorted _⟩
  · split <;> exact sortLessonQueue_sorted _

/-! The quota. -/

def isNew (c : LessonCandidate) : Bool := c.status = .new

def isReview (c : LessonCandidate) : Bool := c.status ≠ .new

theorem takeQuota_filter (limit reviews news : Nat) (ordered : List LessonCandidate)
    (hlimit : reviews + news ≤ limit) :
    (takeQuota limit reviews news ordered).filter isNew = (ordered.filter isNew).take news ∧
      (takeQuota limit reviews news ordered).filter isReview =
        (ordered.filter isReview).take reviews := by
  induction ordered generalizing limit reviews news with
  | nil => cases limit <;> simp [takeQuota]
  | cons candidate rest ih =>
    cases limit with
    | zero =>
      obtain rfl : reviews = 0 := by omega
      obtain rfl : news = 0 := by omega
      simp [takeQuota]
    | succ limit =>
      unfold takeQuota
      by_cases hc : candidate.status = .new
      · have hnew : isNew candidate = true := by simp [isNew, hc]
        have hreview : isReview candidate = false := by simp [isReview, hc]
        simp only [hc, if_true]
        cases news with
        | zero =>
          obtain ⟨h₁, h₂⟩ := ih (limit + 1) reviews 0 hlimit
          rw [List.take_zero] at h₁ ⊢
          rw [List.filter_cons_of_neg (by simp [hreview])]
          exact ⟨h₁, h₂⟩
        | succ news =>
          obtain ⟨h₁, h₂⟩ := ih limit reviews news (by omega)
          simp [hnew, hreview, h₁, h₂]
      · have hnew : isNew candidate = false := by simp [isNew, hc]
        have hreview : isReview candidate = true := by simp [isReview, hc]
        simp only [hc, if_false]
        cases reviews with
        | zero =>
          obtain ⟨h₁, h₂⟩ := ih (limit + 1) 0 news hlimit
          rw [List.take_zero] at h₂ ⊢
          rw [List.filter_cons_of_neg (by simp [hnew])]
          exact ⟨h₁, h₂⟩
        | succ reviews =>
          obtain ⟨h₁, h₂⟩ := ih limit reviews news (by omega)
          simp [hnew, hreview, h₁, h₂]

/-- How many of `size` items are not new: the wanted share, and what new items are lacking. -/
def reviewCount (size ratio reviews news : Nat) : Nat :=
  let wanted := min ((size * ratio + 99) / 100) reviews
  wanted + min (size - wanted - news) (reviews - wanted)

theorem countP_new (ordered : List LessonCandidate) :
    ordered.countP isReview + ordered.countP isNew = ordered.length := by
  have := List.length_eq_countP_add_countP (l := ordered) isReview
  have hnot : ordered.countP (fun c => ¬ isReview c = true) = ordered.countP isNew := by
    congr 1
    funext c
    simp [isReview, isNew]
  rw [hnot] at this
  omega

theorem lessonLength_le (limit available : Nat) : lessonLength limit available ≤ available := by
  unfold lessonLength
  split
  · exact le_rfl
  · rename_i h
    simp at h
    omega

theorem applyLessonReviewRatio_eq (ordered : List LessonCandidate) (limit ratio : Nat) :
    let size := lessonLength limit ordered.length
    let reviews := reviewCount size (normalizeLessonReviewRatio ratio) (ordered.countP isReview)
      (ordered.countP isNew)
    applyLessonReviewRatio ordered limit ratio = takeQuota size reviews (size - reviews) ordered ∧
      reviews ≤ ordered.countP isReview ∧ size - reviews ≤ ordered.countP isNew ∧
      reviews ≤ size := by
  have hnews := countP_new ordered
  have hlength := lessonLength_le limit ordered.length
  have hratio : normalizeLessonReviewRatio ratio ≤ 100 := by
    unfold normalizeLessonReviewRatio
    omega
  have hcount : (ordered.countP fun candidate => candidate.status ≠ .new) =
      ordered.countP isReview := rfl
  unfold applyLessonReviewRatio reviewCount
  dsimp only
  rw [← lessonLength, hcount]
  generalize lessonLength limit ordered.length = size at hlength ⊢
  have hdesired : (size * normalizeLessonReviewRatio ratio + 99) / 100 ≤ size := by
    have := Nat.mul_le_mul_left size hratio
    omega
  generalize (size * normalizeLessonReviewRatio ratio + 99) / 100 = desired at hdesired ⊢
  refine ⟨?_, by omega, by omega, by omega⟩
  congr 1 <;> omega

theorem applyLessonReviewRatio_quota (ordered : List LessonCandidate) (limit ratio : Nat) :
    let size := lessonLength limit ordered.length
    let reviews := reviewCount size (normalizeLessonReviewRatio ratio) (ordered.countP isReview)
      (ordered.countP isNew)
    let taken := applyLessonReviewRatio ordered limit ratio
    taken.countP isReview = reviews ∧
      taken.filter isReview = (ordered.filter isReview).take (taken.countP isReview) ∧
      taken.filter isNew = (ordered.filter isNew).take (taken.countP isNew) := by
  have h := applyLessonReviewRatio_eq ordered limit ratio
  intro size reviews taken
  change taken = takeQuota size reviews (size - reviews) ordered ∧ reviews ≤ _ ∧
    size - reviews ≤ _ ∧ reviews ≤ size at h
  clear_value taken reviews size
  obtain ⟨htaken, hreviews, hnews, hle⟩ := h
  have hfilter := takeQuota_filter size reviews (size - reviews) ordered (by omega)
  rw [← htaken] at hfilter
  have hcountReview : taken.countP isReview = reviews := by
    rw [List.countP_eq_length_filter, hfilter.2, List.length_take, ← List.countP_eq_length_filter]
    omega
  have hcountNew : taken.countP isNew = size - reviews := by
    rw [List.countP_eq_length_filter, hfilter.1, List.length_take, ← List.countP_eq_length_filter]
    omega
  rw [hcountReview, hcountNew]
  exact ⟨rfl, hfilter.2, hfilter.1⟩

/-! The record. -/

/-- The record counts what a list of items holds. -/
structure Counts (composition : LessonComposition) (items : List LessonCandidate) : Prop where
  total : composition.total = items.length
  words : composition.words = items.countP fun c => c.kind ≠ .phrase
  phrases : composition.phrases = items.countP fun c => c.kind = .phrase
  due : composition.due = items.countP fun c => c.due
  new : composition.new = items.countP isNew
  scheduled : composition.scheduled =
    items.countP fun c => isReview c && lessonCandidateReason c = .scheduled
  recentFailures : composition.recentFailures = items.countP fun c => c.recentFailure
  weakTopics : composition.weakTopics = items.countP fun c => c.weakTopic

theorem Counts.count {composition : LessonComposition} {items : List LessonCandidate}
    (h : Counts composition items) (candidate : LessonCandidate) :
    Counts (composition.count candidate) (items ++ [candidate]) := by
  constructor <;> simp only [List.countP_append, List.countP_singleton, List.length_append,
    LessonComposition.count]
  · rw [h.total]
    rfl
  · rw [h.words]
    by_cases hk : candidate.kind = .phrase <;> simp [hk]
  · rw [h.phrases]
    by_cases hk : candidate.kind = .phrase <;> simp [hk]
  · rw [h.due]
  · rw [h.new]
    by_cases hs : candidate.status = .new <;> simp [isNew, hs]
  · rw [h.scheduled]
    by_cases hs : candidate.status = .new <;> simp [isReview, hs]
  · rw [h.recentFailures]
  · rw [h.weakTopics]

theorem counts_foldl {composition : LessonComposition} {counted : List LessonCandidate}
    (h : Counts composition counted) (items : List LessonCandidate) :
    Counts (items.foldl LessonComposition.count composition) (counted ++ items) := by
  induction items generalizing composition counted with
  | nil => simpa using h
  | cons candidate items ih => simpa using ih (h.count candidate)

/-! The lesson. -/

theorem composeLessonCandidates_eq (unicode : Unicode) (limit ratio : Nat) :
    (composeLessonCandidates unicode candidates source limit ratio).1 =
      diversifyLessonDimensions unicode
        (applyLessonReviewRatio (orderedQueue candidates source)
          (lessonLength limit candidates.length) (normalizeLessonReviewRatio ratio))
        maxLessonDimensionStreak := by
  unfold composeLessonCandidates
  dsimp only
  split
  · rename_i hempty
    simp only [Bool.and_eq_true, List.isEmpty_iff] at hempty
    have hnil : orderedQueue candidates source = [] := by
      have hall := queues_length candidates
      have hwords : wordQueue candidates = [] := hempty.1
      have hphrases : phraseQueue candidates = [] := hempty.2
      have hperm := orderedQueue_perm candidates source
      have hcandidates : candidates = [] := by
        rw [hwords, hphrases] at hall
        exact List.length_eq_zero_iff.1 hall.symm
      simpa [hcandidates, composedFrom] using hperm
    have hnone (limit ratio : Nat) : applyLessonReviewRatio [] limit ratio = [] :=
      List.sublist_nil.1 (applyLessonReviewRatio_sublist [] limit ratio)
    rw [hnil, hnone]
    rfl
  · rfl

theorem composeLessonCandidates_counts (unicode : Unicode) (limit ratio : Nat) :
    Counts (composeLessonCandidates unicode candidates source limit ratio).2
      (composeLessonCandidates unicode candidates source limit ratio).1 := by
  unfold composeLessonCandidates
  dsimp only
  split
  · constructor <;> rfl
  · exact @counts_foldl _ [] (by constructor <;> rfl) _

/-- How many items a lesson has: all that are eligible, unless a positive limit is smaller. -/
def lessonItems (limit : Int) (eligible : Nat) : Nat :=
  if limit ≤ 0 then eligible else min limit.toNat eligible

theorem lessonLength_eq (limit : Int) {eligible available : Nat} (h : eligible ≤ available) :
    lessonLength (lessonLength limit.toNat available) eligible = lessonItems limit eligible := by
  unfold lessonItems lessonLength
  by_cases hlimit : limit ≤ 0
  · have hzero : limit.toNat = 0 := by omega
    simp only [hzero, hlimit, if_true]
    simp
    omega
  · simp only [hlimit, if_false]
    split <;> split <;> simp_all <;> omega

theorem composedFrom_sublist : composedFrom candidates source <+ candidates := by
  unfold composedFrom
  split
  · exact List.Sublist.refl _
  · split <;> exact List.filter_sublist

theorem sublist_priorities (unicode : Unicode) {taken ordered : List LessonCandidate}
    (htaken : taken <+ ordered)
    (hordered : ordered.Pairwise fun c d =>
      lessonCandidatePriority c ≤ lessonCandidatePriority d) (maxStreak : Nat) :
    (diversifyLessonDimensions unicode taken maxStreak).Pairwise fun c d =>
      lessonCandidatePriority c ≤ lessonCandidatePriority d := by
  have hmap := (@diversifyLessonDimensions_regrouped unicode taken maxStreak).1
  have hsorted : (taken.map lessonCandidatePriority).Pairwise (· ≤ ·) :=
    List.pairwise_map.2 (hordered.sublist htaken)
  rw [← hmap] at hsorted
  exact List.pairwise_map.1 hsorted

theorem normalizeLessonReviewRatio_idem (ratio : Int) :
    normalizeLessonReviewRatio (normalizeLessonReviewRatio ratio) =
      normalizeLessonReviewRatio ratio := by
  unfold normalizeLessonReviewRatio
  omega

/-- What a composed lesson holds. -/
theorem composition_exact (unicode : Unicode) (hids : (candidates.map LessonCandidate.wordId).Nodup)
    (limit : Int) (reviewRatio : Option Int) :
    let lesson := (composeWith unicode candidates source limit reviewRatio).1
    let composition := (composeWith unicode candidates source limit reviewRatio).2
    let eligible := composedFrom candidates source
    let ordered := orderedQueue candidates source
    let size := lessonItems limit eligible.length
    lesson.length = size ∧ (lesson.map LessonCandidate.wordId).Nodup ∧ lesson ⊆ eligible ∧
      lesson.countP isReview = reviewCount size (normalizeLessonReviewRatio (reviewRatio.getD 70))
        (eligible.countP isReview) (eligible.countP isNew) ∧
      ordered ~ eligible ∧
      (if source = "mixed" then
        ordered = composeMixedPriorityTiers (wordQueue candidates) (phraseQueue candidates)
            candidates.length ∧
          (wordQueue candidates).Pairwise (fun c d => place c ≤ place d) ∧
          (phraseQueue candidates).Pairwise fun c d => place c ≤ place d
      else ordered.Pairwise fun c d => place c ≤ place d) ∧
      lesson.filter isReview ~ (ordered.filter isReview).take (lesson.countP isReview) ∧
      lesson.filter isNew ~ (ordered.filter isNew).take (lesson.countP isNew) ∧
      (lesson.Pairwise fun c d => lessonCandidatePriority c ≤ lessonCandidatePriority d) ∧
      Counts composition lesson := by
  intro lesson composition eligible ordered size
  have hcounts : Counts composition lesson := composeLessonCandidates_counts candidates source
    unicode limit.toNat (normalizeLessonReviewRatio (reviewRatio.getD 70))
  have hlesson := composeLessonCandidates_eq candidates source unicode limit.toNat
    (normalizeLessonReviewRatio (reviewRatio.getD 70))
  have hperm : ordered ~ eligible := orderedQueue_perm candidates source
  have hsize : lessonLength (lessonLength limit.toNat candidates.length) ordered.length = size := by
    rw [hperm.length_eq]
    exact lessonLength_eq limit (composedFrom_sublist candidates source).length_le
  have hquota := applyLessonReviewRatio_quota ordered (lessonLength limit.toNat candidates.length)
    (normalizeLessonReviewRatio (normalizeLessonReviewRatio (reviewRatio.getD 70)))
  have htaken := applyLessonReviewRatio_sublist ordered (lessonLength limit.toNat candidates.length)
    (normalizeLessonReviewRatio (normalizeLessonReviewRatio (reviewRatio.getD 70)))
  have hlength := applyLessonReviewRatio_length ordered
    (lessonLength limit.toNat candidates.length)
    (normalizeLessonReviewRatio (normalizeLessonReviewRatio (reviewRatio.getD 70)))
  simp only [hsize, normalizeLessonReviewRatio_idem] at hquota htaken hlength
  have hdiverse : lesson = diversifyLessonDimensions unicode (applyLessonReviewRatio ordered
      (lessonLength limit.toNat candidates.length)
      (normalizeLessonReviewRatio (reviewRatio.getD 70))) maxLessonDimensionStreak := by
    rw [← normalizeLessonReviewRatio_idem (reviewRatio.getD 70)]
    exact hlesson
  generalize applyLessonReviewRatio ordered (lessonLength limit.toNat candidates.length)
    (normalizeLessonReviewRatio (reviewRatio.getD 70)) = taken at hquota htaken hlength hdiverse
  have hsame : lesson ~ taken := by
    rw [hdiverse]
    exact diversifyLessonDimensions_perm unicode taken maxLessonDimensionStreak
  have hfilter (p : LessonCandidate → Bool) : lesson.filter p ~ taken.filter p := hsame.filter p
  have hcount (p : LessonCandidate → Bool) : lesson.countP p = taken.countP p := hsame.countP_eq p
  refine ⟨hsame.length_eq.trans hlength, ?_, fun c hc => hperm.subset (htaken.subset
    (hsame.subset hc)), ?_, hperm, ?_, ?_, ?_, ?_, hcounts⟩
  · have hordered : (ordered.map LessonCandidate.wordId).Nodup := by
      rw [(hperm.map _).nodup_iff]
      exact hids.sublist ((composedFrom_sublist candidates source).map _)
    rw [(hsame.map _).nodup_iff]
    exact hordered.sublist (htaken.map _)
  · rw [hcount, hquota.1, hperm.countP_eq, hperm.countP_eq]
  · exact orderedQueue_place candidates source
  · rw [hcount, ← hquota.2.1]
    exact hfilter _
  · rw [hcount, ← hquota.2.2]
    exact hfilter _
  · rw [hdiverse]
    exact sublist_priorities unicode htaken (orderedQueue_sorted candidates source) _

theorem two_new_words :
    (composeWith ascii [newWord 1 "Travel", newWord 2 "Food", newWord 3 "Home"] "mixed" 2 none).1.length
      = 2 :=
  (composition_exact [newWord 1 "Travel", newWord 2 "Food", newWord 3 "Home"] "mixed" ascii
    (by decide) 2 none).1

end LessonQuota
