import LexiGo.Learning.LessonComposer
import Mathlib.Data.List.Perm.Basic
import Mathlib.Data.List.Perm.Subperm

/-! The composer only arranges and cuts: what it selects are candidates, none of
them twice, and as many as the size of the lesson and the queue allow. -/
namespace LessonSelection
open GoText AnswerJudgement LearningSchema LessonComposer
open scoped List

theorem sortLessonQueue_perm (queue : List LessonCandidate) : sortLessonQueue queue ~ queue :=
  List.perm_insertionSort _ _

/-- The branches of `alternateLessonKinds` take a word or a phrase from the front. -/
theorem alternateLessonKinds_perm (limit : Nat) (words phrases : List LessonCandidate)
    (next : WordKind) (h : words.length + phrases.length ≤ limit) :
    alternateLessonKinds limit words phrases next ~ words ++ phrases := by
  induction limit generalizing words phrases next with
  | zero =>
    have hw : words = [] := List.length_eq_zero_iff.1 (by omega)
    have hp : phrases = [] := List.length_eq_zero_iff.1 (by omega)
    simp [hw, hp, alternateLessonKinds]
  | succ limit ih =>
    cases words with
    | nil =>
      cases phrases with
      | nil => simp [alternateLessonKinds]
      | cons phrase phrases =>
        have hrest := (ih [] phrases .word (by simpa using h)).cons phrase
        cases next with
        | word => exact hrest
        | phrase => exact hrest
    | cons word words =>
      have hword : ∀ next', word :: alternateLessonKinds limit words phrases next' ~
          word :: words ++ phrases := by
        intro next'
        exact (ih words phrases next' (by simp at h; omega)).cons word
      cases next with
      | word => exact hword .phrase
      | phrase =>
        cases phrases with
        | nil => exact hword .phrase
        | cons phrase phrases =>
          have hrest := ih (word :: words) phrases .word (by simp at h ⊢; omega)
          exact (hrest.cons phrase).trans List.perm_middle.symm

theorem lessonCandidatePriority_le (candidate : LessonCandidate) :
    lessonCandidatePriority candidate ≤ maxLessonCandidatePriority := by
  unfold lessonCandidatePriority maxLessonCandidatePriority
  split <;> omega

/-- The candidates of the tiers before this one. -/
def tiersBefore (priority : Nat) (candidates : List LessonCandidate) : List LessonCandidate :=
  candidates.filter fun candidate => lessonCandidatePriority candidate < priority

theorem tiersBefore_succ (priority : Nat) (candidates : List LessonCandidate) :
    tiersBefore priority candidates ++ candidatesAtPriority candidates priority ~
      tiersBefore (priority + 1) candidates := by
  unfold tiersBefore candidatesAtPriority
  induction candidates with
  | nil => simp
  | cons c rest ih =>
    rcases Nat.lt_trichotomy (lessonCandidatePriority c) priority with h | h | h
    · have h₁ : lessonCandidatePriority c ≠ priority := by omega
      have h₂ : lessonCandidatePriority c < priority + 1 := by omega
      simp only [List.filter_cons, h, h₁, h₂, decide_true, decide_false, if_true,
        Bool.false_eq_true, if_false, List.cons_append]
      exact ih.cons c
    · have hc := List.perm_middle.trans (ih.cons c)
      simpa [h] using hc
    · have h₁ : ¬ lessonCandidatePriority c < priority := by omega
      have h₂ : lessonCandidatePriority c ≠ priority := by omega
      have h₃ : ¬ lessonCandidatePriority c < priority + 1 := by omega
      simp only [List.filter_cons, h₁, h₂, h₃, decide_false, Bool.false_eq_true, if_false]
      exact ih

theorem tiersBefore_all (candidates : List LessonCandidate) :
    tiersBefore (maxLessonCandidatePriority + 1) candidates = candidates := by
  refine List.filter_eq_self.2 fun c _ => ?_
  have := lessonCandidatePriority_le c
  simpa using Nat.lt_succ_of_le this

/-- With room for all of them, the tiers up to `priority` hold every candidate of
these priorities. -/
theorem composeMixedPriorityTiers_perm (words phrases : List LessonCandidate) :
    composeMixedPriorityTiers words phrases (words.length + phrases.length) ~ words ++ phrases := by
  have tiers : ∀ n, (List.range n).foldl (fun selected priority =>
      if words.length + phrases.length ≤ selected.length then selected
      else
        let tierWords := candidatesAtPriority words priority
        let tierPhrases := candidatesAtPriority phrases priority
        if tierWords.isEmpty && tierPhrases.isEmpty then selected
        else selected ++ alternateLessonKinds (words.length + phrases.length - selected.length)
          tierWords tierPhrases (startKind selected tierWords tierPhrases)) [] ~
      tiersBefore n (words ++ phrases) := by
    intro n
    induction n with
    | zero => simp [tiersBefore]
    | succ n ih =>
      rw [List.range_succ, List.foldl_concat]
      generalize List.foldl _ [] (List.range n) = selected at ih ⊢
      have hnext := tiersBefore_succ n (words ++ phrases)
      have htier : candidatesAtPriority (words ++ phrases) n =
          candidatesAtPriority words n ++ candidatesAtPriority phrases n := List.filter_append ..
      have hroom : selected.length + (candidatesAtPriority words n).length +
          (candidatesAtPriority phrases n).length ≤ words.length + phrases.length := by
        have hle : (tiersBefore (n + 1) (words ++ phrases)).length ≤ (words ++ phrases).length :=
          List.length_filter_le ..
        have hlen := hnext.length_eq
        rw [htier] at hlen
        simp only [List.length_append, ih.length_eq] at hlen hle ⊢
        omega
      refine List.Perm.trans ?_ hnext
      rw [htier]
      split
      · have hw : candidatesAtPriority words n = [] := List.length_eq_zero_iff.1 (by omega)
        have hp : candidatesAtPriority phrases n = [] := List.length_eq_zero_iff.1 (by omega)
        simpa [hw, hp] using ih
      · dsimp only
        split
        · rename_i hempty
          have hnone : candidatesAtPriority words n = [] ∧ candidatesAtPriority phrases n = [] := by
            simpa using hempty
          simpa [hnone] using ih
        · exact ih.append (alternateLessonKinds_perm _ _ _ _ (by omega))
  have := tiers (maxLessonCandidatePriority + 1)
  rwa [tiersBefore_all] at this

theorem takeQuota_sublist (limit reviews news : Nat) (ordered : List LessonCandidate) :
    takeQuota limit reviews news ordered <+ ordered := by
  induction ordered generalizing limit reviews news with
  | nil => cases limit <;> simp [takeQuota]
  | cons candidate rest ih =>
    cases limit with
    | zero => simp [takeQuota]
    | succ limit =>
      unfold takeQuota
      split
      · cases news with
        | zero => exact (ih _ _ _).cons candidate
        | succ news => exact (ih _ _ _).cons_cons candidate
      · cases reviews with
        | zero => exact (ih _ _ _).cons candidate
        | succ reviews => exact (ih _ _ _).cons_cons candidate

/-- A quota that the queue can fill is filled. -/
theorem takeQuota_length (limit reviews news : Nat) (ordered : List LessonCandidate)
    (hlimit : reviews + news ≤ limit)
    (hreviews : reviews ≤ ordered.countP fun candidate => candidate.status ≠ .new)
    (hnews : news ≤ ordered.countP fun candidate => candidate.status = .new) :
    (takeQuota limit reviews news ordered).length = reviews + news := by
  induction ordered generalizing limit reviews news with
  | nil =>
    have hr : reviews = 0 := by simpa using hreviews
    have hn : news = 0 := by simpa using hnews
    cases limit <;> simp [takeQuota, hr, hn]
  | cons candidate rest ih =>
    cases limit with
    | zero => simp only [takeQuota, List.length_nil]; omega
    | succ limit =>
      unfold takeQuota
      by_cases hc : candidate.status = .new
      · rw [List.countP_cons_of_neg (by simp [hc])] at hreviews
        rw [List.countP_cons_of_pos (by simp [hc])] at hnews
        simp only [hc, if_true]
        cases news with
        | zero => exact ih _ _ _ hlimit hreviews (Nat.zero_le _)
        | succ news =>
          have := ih limit reviews news (by omega) hreviews (by omega)
          simp only [List.length_cons, this]
          omega
      · rw [List.countP_cons_of_pos (by simp [hc])] at hreviews
        rw [List.countP_cons_of_neg (by simp [hc])] at hnews
        simp only [hc, if_false]
        cases reviews with
        | zero => exact ih _ _ _ hlimit (Nat.zero_le _) hnews
        | succ reviews =>
          have := ih limit reviews news (by omega) (by omega) hnews
          simp only [List.length_cons, this]
          omega

/-- `limit`, or all of them where there are fewer or the limit is `0`. -/
def lessonLength (limit available : Nat) : Nat :=
  if limit = 0 || available < limit then available else limit

theorem applyLessonReviewRatio_length (ordered : List LessonCandidate) (limit ratio : Nat) :
    (applyLessonReviewRatio ordered limit ratio).length = lessonLength limit ordered.length := by
  have hnews : ordered.countP (fun candidate => candidate.status = .new) =
      ordered.length - ordered.countP fun candidate => candidate.status ≠ .new := by
    have := List.length_eq_countP_add_countP (l := ordered)
      fun candidate : LessonCandidate => decide (candidate.status ≠ .new)
    simp only [decide_not, Bool.not_not, Bool.decide_eq_true] at this ⊢
    omega
  have hcount := List.countP_le_length (l := ordered)
    (p := fun candidate : LessonCandidate => decide (candidate.status ≠ .new))
  have hlength : lessonLength limit ordered.length ≤ ordered.length := by
    unfold lessonLength
    split
    · exact le_rfl
    · rename_i h
      simp at h
      omega
  have hdesired : (lessonLength limit ordered.length * normalizeLessonReviewRatio ratio + 99) / 100 ≤
      lessonLength limit ordered.length := by
    have hratio : normalizeLessonReviewRatio ratio ≤ 100 := by
      unfold normalizeLessonReviewRatio
      omega
    have := Nat.mul_le_mul_left (lessonLength limit ordered.length) hratio
    omega
  unfold applyLessonReviewRatio
  dsimp only
  rw [← lessonLength]
  generalize lessonLength limit ordered.length = size at hlength hdesired ⊢
  generalize (size * normalizeLessonReviewRatio ratio + 99) / 100 = desired at hdesired ⊢
  rw [takeQuota_length]
  · omega
  · omega
  · omega
  · rw [hnews]
    omega

theorem applyLessonReviewRatio_sublist (ordered : List LessonCandidate) (limit ratio : Nat) :
    applyLessonReviewRatio ordered limit ratio <+ ordered := takeQuota_sublist ..

section Diversify
variable (unicode : Unicode)

theorem findAlternative_lt {before rest : List LessonCandidate} {maxStreak priority n : Nat}
    (h : findAlternative unicode before maxStreak priority rest = some n) : n < rest.length := by
  induction rest generalizing n with
  | nil => simp [findAlternative] at h
  | cons candidate rest ih =>
    unfold findAlternative at h
    split at h
    · simp at h
    · split at h
      · obtain ⟨m, hm, rfl⟩ := Option.map_eq_some_iff.1 h
        simpa using ih hm
      · simp at h
        simp [← h]

theorem swap_perm {candidate : LessonCandidate} {rest : List LessonCandidate} {n : Nat}
    (h : n < rest.length) : rest[n]?.getD candidate :: rest.set n candidate ~ candidate :: rest := by
  have hget : rest[n]?.getD candidate = rest[n] := by simp [h]
  rw [hget]
  calc rest[n] :: rest.set n candidate
      ~ rest[n] :: candidate :: rest.eraseIdx n := (List.set_perm_cons_eraseIdx h candidate).cons _
    _ ~ candidate :: rest[n] :: rest.eraseIdx n := List.Perm.swap ..
    _ ~ candidate :: rest := (List.getElem_cons_eraseIdx_perm h).cons candidate

theorem diversifyFrom_perm (maxStreak turns : Nat) (before rest : List LessonCandidate)
    (h : rest.length ≤ turns) : diversifyFrom unicode maxStreak turns before rest ~ before ++ rest := by
  induction turns generalizing before rest with
  | zero =>
    have : rest = [] := List.length_eq_zero_iff.1 (by omega)
    simp [this, diversifyFrom]
  | succ turns ih =>
    cases rest with
    | nil => simp [diversifyFrom]
    | cons candidate rest =>
      have hlen : rest.length ≤ turns := by simpa using h
      have hkeep : diversifyFrom unicode maxStreak turns (candidate :: before) rest ~
          before ++ candidate :: rest := (ih _ _ hlen).trans List.perm_middle.symm
      unfold diversifyFrom
      split
      · exact hkeep
      · split
        · exact hkeep
        · rename_i n hn
          have hswap := @swap_perm candidate _ _ (findAlternative_lt unicode hn)
          calc diversifyFrom unicode maxStreak turns _ _
              ~ (rest[n]?.getD candidate :: before) ++ rest.set n candidate :=
                ih _ _ (by simpa using hlen)
            _ ~ before ++ (rest[n]?.getD candidate :: rest.set n candidate) := List.perm_middle.symm
            _ ~ before ++ candidate :: rest := hswap.append_left before

theorem diversifyLessonDimensions_perm (queue : List LessonCandidate) (maxStreak : Nat) :
    diversifyLessonDimensions unicode queue maxStreak ~ queue := by
  unfold diversifyLessonDimensions
  split
  · exact List.Perm.refl queue
  · exact diversifyFrom_perm unicode maxStreak _ [] queue le_rfl

end Diversify

section Compose
variable (unicode : Unicode) (candidates : List LessonCandidate) (source : String)
  (limit ratio : Nat)

/-- The queue that the source reads: both kinds, phrases, or words. -/
def composedFrom : List LessonCandidate :=
  if source = "mixed" then candidates
  else if source = "phrases" then candidates.filter fun candidate => candidate.kind = .phrase
  else candidates.filter fun candidate => candidate.kind ≠ .phrase

theorem queues_perm :
    sortLessonQueue (candidates.filter fun candidate => candidate.kind ≠ .phrase) ++
      sortLessonQueue (candidates.filter fun candidate => candidate.kind = .phrase) ~ candidates := by
  refine ((sortLessonQueue_perm _).append (sortLessonQueue_perm _)).trans ?_
  have := List.filter_append_perm (fun candidate => decide (candidate.kind ≠ .phrase)) candidates
  simpa using this

/-- What is selected are candidates of the queue, as often as they stand in it, and
of a full queue exactly as many as the limit says. -/
theorem composeLessonCandidates_selects :
    (composeLessonCandidates unicode candidates source limit ratio).1 <+~
        composedFrom candidates source ∧
      (composeLessonCandidates unicode candidates source limit ratio).1.length =
        lessonLength (lessonLength limit candidates.length) (composedFrom candidates source).length := by
  have hqueues := queues_perm candidates
  unfold composeLessonCandidates
  dsimp only
  split
  · rename_i hempty
    simp only [Bool.and_eq_true, List.isEmpty_iff] at hempty
    rw [hempty.1, hempty.2] at hqueues
    have hnil : candidates = [] := by simpa using hqueues.symm
    simp [composedFrom, hnil, lessonLength]
  · generalize hordered : (if source = "mixed" then _ else _ : List LessonCandidate) = ordered
    have hperm : ordered ~ composedFrom candidates source := by
      unfold composedFrom
      rw [← hordered]
      split
      · have hlen := hqueues.length_eq
        rw [List.length_append] at hlen
        rw [← hlen]
        exact (composeMixedPriorityTiers_perm _ _).trans hqueues
      · split <;> exact sortLessonQueue_perm _
    have hlast := diversifyLessonDimensions_perm unicode
      (applyLessonReviewRatio ordered (lessonLength limit candidates.length)
        (normalizeLessonReviewRatio ratio)) maxLessonDimensionStreak
    constructor
    · exact hlast.subperm.trans ((applyLessonReviewRatio_sublist ..).subperm.trans hperm.subperm)
    · exact (hlast.length_eq.trans (applyLessonReviewRatio_length ..)).trans (by rw [hperm.length_eq])

end Compose

end LessonSelection
