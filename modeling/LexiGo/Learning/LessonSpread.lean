import LexiGo.BlockOrder
import LexiGo.Learning.LessonSelection

/-! Spreading topics and parts of speech over a lesson. An item that would come too
often in a row gives way to a later one of its own priority, if any would not. -/
namespace LessonSpread
open GoText LearningSchema LessonComposer LessonSelection BlockOrder
open scoped List

variable (unicode : Unicode) (maxStreak : Nat)

/-- No item goes on with a streak while another of its block still to come does not. -/
def Fair : List LessonCandidate → List LessonCandidate → Prop
  | _, [] => True
  | before, candidate :: rest =>
    (createsLessonDimensionStreak unicode before candidate maxStreak = true →
      ∀ later ∈ rest.takeWhile fun c => lessonCandidatePriority c = lessonCandidatePriority candidate,
        createsLessonDimensionStreak unicode before later maxStreak = true) ∧
    Fair (candidate :: before) rest

variable {unicode maxStreak} {before rest : List LessonCandidate}

theorem findAlternative_none {priority : Nat}
    (h : findAlternative unicode before maxStreak priority rest = none) :
    ∀ c ∈ rest.takeWhile fun c => lessonCandidatePriority c = priority,
      createsLessonDimensionStreak unicode before c maxStreak = true := by
  induction rest with
  | nil => simp
  | cons candidate rest ih =>
    unfold findAlternative at h
    intro c hc
    rw [List.takeWhile_cons] at hc
    split at h
    · rename_i hne
      simp [hne] at hc
    · rename_i heq
      rw [not_not] at heq
      split at h
      · rename_i hstreak
        simp only [heq, decide_true, if_true, List.mem_cons] at hc
        rcases hc with rfl | hc
        · exact hstreak
        · exact ih (Option.map_eq_none_iff.1 h) c hc
      · simp at h

theorem findAlternative_some {priority n : Nat}
    (h : findAlternative unicode before maxStreak priority rest = some n) :
    ∃ chosen, rest[n]? = some chosen ∧
      createsLessonDimensionStreak unicode before chosen maxStreak = false ∧
      ∀ c ∈ rest.take (n + 1), lessonCandidatePriority c = priority := by
  induction rest generalizing n with
  | nil => simp [findAlternative] at h
  | cons candidate rest ih =>
    unfold findAlternative at h
    split at h
    · simp at h
    · rename_i heq
      rw [not_not] at heq
      split at h
      · obtain ⟨m, hm, rfl⟩ := Option.map_eq_some_iff.1 h
        obtain ⟨chosen, hget, hstreak, hblock⟩ := ih hm
        refine ⟨chosen, by simpa using hget, hstreak, fun c hc => ?_⟩
        rw [List.take_succ_cons] at hc
        rcases List.mem_cons.1 hc with rfl | hc
        · exact heq
        · exact hblock c hc
      · rename_i hstreak
        obtain rfl : 0 = n := by simpa using h
        exact ⟨candidate, rfl, by simpa using hstreak, by simpa using heq⟩

/-- One turn of the loop settles one place, the rest is settled by the turns to come. -/
theorem diversifyFrom_fair (turns : Nat) (before rest : List LessonCandidate)
    (h : rest.length ≤ turns) :
    ∃ settled, diversifyFrom unicode maxStreak turns before rest = before.reverse ++ settled ∧
      Regrouped lessonCandidatePriority rest settled ∧ Fair unicode maxStreak before settled := by
  induction turns generalizing before rest with
  | zero =>
    obtain rfl : rest = [] := List.length_eq_zero_iff.1 (by omega)
    exact ⟨[], by simp [diversifyFrom], Regrouped.refl [], trivial⟩
  | succ turns ih =>
    cases rest with
    | nil => exact ⟨[], by simp [diversifyFrom], Regrouped.refl [], trivial⟩
    | cons candidate rest =>
      have hlength : rest.length ≤ turns := by simpa using h
      unfold diversifyFrom
      by_cases hstreak : createsLessonDimensionStreak unicode before candidate maxStreak = true
      · rw [if_neg (by simpa using hstreak)]
        cases hfind : findAlternative unicode before maxStreak (lessonCandidatePriority candidate) rest with
        | none =>
          obtain ⟨settled, hsettled, hregrouped, hfair⟩ := ih (candidate :: before) rest hlength
          refine ⟨candidate :: settled, by simpa using hsettled, hregrouped.cons candidate, ?_, hfair⟩
          intro _ later hlater
          have hsame := hregrouped.takeWhile fun k => k = lessonCandidatePriority candidate
          exact findAlternative_none hfind later (hsame.subset hlater)
        | some n =>
          obtain ⟨chosen, hget, hfree, hblock⟩ := findAlternative_some hfind
          obtain ⟨settled, hsettled, hregrouped, hfair⟩ :=
            ih (chosen :: before) (rest.set n candidate) (by simpa using hlength)
          have hchosen : rest[n]?.getD candidate = chosen := by rw [hget]; rfl
          rw [← hchosen] at hsettled
          refine ⟨chosen :: settled, ?_, ?_, fun hs => ?_, hfair⟩
          · simpa [hchosen] using hsettled
          · exact (regrouped_swap hget hblock).trans (hregrouped.cons chosen)
          · rw [hfree] at hs
            cases hs
      · rw [if_pos (by simpa using hstreak)]
        obtain ⟨settled, hsettled, hregrouped, hfair⟩ := ih (candidate :: before) rest hlength
        exact ⟨candidate :: settled, by simpa using hsettled, hregrouped.cons candidate,
          fun hs => absurd hs hstreak, hfair⟩

theorem diversifyLessonDimensions_regrouped (queue : List LessonCandidate) (maxStreak : Nat) :
    Regrouped lessonCandidatePriority queue (diversifyLessonDimensions unicode queue maxStreak) := by
  unfold diversifyLessonDimensions
  split
  · exact Regrouped.refl queue
  · obtain ⟨settled, hsettled, hregrouped, -⟩ :=
      @diversifyFrom_fair unicode maxStreak queue.length [] queue le_rfl
    rw [hsettled]
    exact hregrouped

theorem Fair.at {candidate : LessonCandidate} {result after : List LessonCandidate}
    (h : Fair unicode maxStreak before result) (hresult : result = rest ++ candidate :: after)
    (hs : createsLessonDimensionStreak unicode (rest.reverse ++ before) candidate maxStreak = true) :
    ∀ later ∈ after.takeWhile fun c => lessonCandidatePriority c = lessonCandidatePriority candidate,
      createsLessonDimensionStreak unicode (rest.reverse ++ before) later maxStreak = true := by
  induction rest generalizing before result with
  | nil =>
    subst hresult
    exact h.1 hs
  | cons first rest ih =>
    subst hresult
    rw [List.reverse_cons, List.append_assoc] at hs ⊢
    exact ih h.2 rfl hs

variable (unicode) in
/-- Diversification permutes the queue, keeps what stands between any two places where
the priority changes, and lets an item extend a streak of topics or parts of speech
only if every later item of its block would have extended one there. -/
theorem diversifyLessonDimensions_fair (queue : List LessonCandidate) (maxStreak : Nat)
    (hm : 1 ≤ maxStreak) :
    let result := diversifyLessonDimensions unicode queue maxStreak
    result ~ queue ∧
      (∀ before block after, queue = before ++ block ++ after →
        Boundary lessonCandidatePriority queue before.length →
        Boundary lessonCandidatePriority queue (before ++ block).length →
        ∃ before' block' after', result = before' ++ block' ++ after' ∧
          before'.length = before.length ∧ block' ~ block) ∧
      (3 ≤ queue.length → ∀ before candidate after, result = before ++ candidate :: after →
        createsLessonDimensionStreak unicode before.reverse candidate maxStreak = true →
        ∀ later ∈ after.takeWhile fun c =>
            lessonCandidatePriority c = lessonCandidatePriority candidate,
          createsLessonDimensionStreak unicode before.reverse later maxStreak = true) := by
  intro result
  have hregrouped := @diversifyLessonDimensions_regrouped unicode queue maxStreak
  refine ⟨hregrouped.perm, fun before block after hq => hregrouped.block hq, fun hlong => ?_⟩
  intro before candidate after hresult hs
  have hfair : Fair unicode maxStreak [] result := by
    obtain ⟨settled, hsettled, -, hfair⟩ :=
      @diversifyFrom_fair unicode maxStreak queue.length [] queue le_rfl
    have hlarge : (queue.length < 3 || maxStreak < 1) = false := by simp; omega
    have : result = settled := by
      simp only [result, diversifyLessonDimensions, hlarge, hsettled]
      rfl
    rwa [this]
  have := @Fair.at _ _ _ before _ _ _ hfair hresult
  simp only [List.append_nil] at this
  exact this hs

/-- A new word of a topic. -/
def newWord (w : WordId) (topic : String) : LessonCandidate where
  wordId := w
  kind := .word
  status := .new
  dueAt := 0
  due := false
  topic := topic
  partOfSpeech := ""
  recentFailure := false
  weakTopic := false

theorem travel_spread :
    diversifyLessonDimensions ascii [newWord 1 "Travel", newWord 2 "Travel", newWord 3 " travel",
        newWord 4 "Daily Life"] 2 ~
      [newWord 1 "Travel", newWord 2 "Travel", newWord 3 " travel", newWord 4 "Daily Life"] :=
  (diversifyLessonDimensions_fair ascii _ 2 (by decide)).1

end LessonSpread
