import LexiGo.Learning.AnswerJudgement
import LexiGo.ListParts

/-! What the judge accepts, by the candidates of a definition. A curated answer
that is added to a definition is accepted from then on, and takes nothing away. -/
namespace AnswerCandidates
open GoText AnswerJudgement

theorem trimSpace_trimSpace (s : String) : trimSpace (trimSpace s) = trimSpace s := by
  unfold trimSpace
  rw [String.toList_ofList, ListParts.strip_strip]

variable {unicode : Unicode}

theorem normalizeSubmittedAnswer_trimSpace (s : String) :
    normalizeSubmittedAnswer unicode (trimSpace s) = normalizeSubmittedAnswer unicode s := by
  unfold normalizeSubmittedAnswer
  rw [trimSpace_trimSpace]

theorem normalizeSubmittedAnswer_of_blank {s : String} (h : trimSpace s = "") :
    normalizeSubmittedAnswer unicode s = "" := by
  rw [normalizeSubmittedAnswer, h]
  rfl

/-- The two ways in which a candidate matches. -/
def matched (unicode : Unicode) (submitted candidate : String) : Bool :=
  unicode.equalFold (trimSpace submitted) (trimSpace candidate) ||
    normalizeSubmittedAnswer unicode submitted = normalizeSubmittedAnswer unicode candidate

theorem matchCandidate_fst (submitted : String) (candidates : List String) :
    (matchCandidate unicode (trimSpace submitted) (normalizeSubmittedAnswer unicode submitted)
      candidates).1 = candidates.any (matched unicode submitted) := by
  induction candidates with
  | nil => rfl
  | cons candidate rest ih =>
    simp only [matchCandidate, List.any_cons, matched]
    split_ifs with hfold hnorm
    · simp [hfold]
    · simp [hnorm]
    · simp [hfold, hnorm, ih]

theorem judgeSubmittedAnswer_fst (definition : AnswerDefinition) (submitted : String) :
    (judgeSubmittedAnswer unicode definition submitted).1 =
      (normalizeSubmittedAnswer unicode submitted ≠ "" &&
        (acceptedAnswerCandidates unicode definition).any (matched unicode submitted)) := by
  unfold judgeSubmittedAnswer
  dsimp only
  rw [normalizeSubmittedAnswer_trimSpace]
  split_ifs with hblank hnorm
  · simp [normalizeSubmittedAnswer_of_blank hblank]
  · simp [hnorm]
  · simp [hnorm, matchCandidate_fst]

theorem distinctCandidates_append (seen xs ys : List String) :
    ∃ seen', distinctCandidates unicode seen (xs ++ ys) =
      distinctCandidates unicode seen xs ++ distinctCandidates unicode seen' ys := by
  induction xs generalizing seen with
  | nil => exact ⟨seen, rfl⟩
  | cons x xs ih =>
    simp only [List.cons_append, distinctCandidates]
    split_ifs with hskip
    · exact ih seen
    · obtain ⟨seen', h⟩ := ih (normalizeSubmittedAnswer unicode (trimSpace x) :: seen)
      exact ⟨seen', by rw [h]; rfl⟩

/-- Every normal form that is not empty keeps a candidate. -/
theorem distinctCandidates_represents {seen candidates : List String} {candidate : String}
    (hmem : candidate ∈ candidates) (hne : normalizeSubmittedAnswer unicode candidate ≠ "")
    (hnew : normalizeSubmittedAnswer unicode candidate ∉ seen) :
    ∃ kept ∈ distinctCandidates unicode seen candidates,
      normalizeSubmittedAnswer unicode kept = normalizeSubmittedAnswer unicode candidate := by
  induction candidates generalizing seen with
  | nil => cases hmem
  | cons c rest ih =>
    simp only [distinctCandidates, normalizeSubmittedAnswer_trimSpace]
    by_cases hsame : normalizeSubmittedAnswer unicode c = normalizeSubmittedAnswer unicode candidate
    · rw [hsame, if_neg (by simp [hne, hnew])]
      exact ⟨trimSpace c, List.mem_cons_self, by rw [normalizeSubmittedAnswer_trimSpace, hsame]⟩
    · have hrest : candidate ∈ rest := by
        rcases List.mem_cons.1 hmem with rfl | hrest
        · exact absurd rfl hsame
        · exact hrest
      split_ifs with hskip
      · exact ih hrest hnew
      · obtain ⟨kept, hk, heq⟩ := ih hrest (List.not_mem_cons_of_ne_of_not_mem (Ne.symm hsame) hnew)
        exact ⟨kept, List.mem_cons_of_mem _ hk, heq⟩

theorem distinctCandidates_nonblank {seen candidates : List String} {candidate : String}
    (h : candidate ∈ distinctCandidates unicode seen candidates) : trimSpace candidate ≠ "" := by
  induction candidates generalizing seen with
  | nil => cases h
  | cons c rest ih =>
    simp only [distinctCandidates, normalizeSubmittedAnswer_trimSpace] at h
    split_ifs at h with hskip
    · exact ih h
    · rcases List.mem_cons.1 h with rfl | h
      · rw [trimSpace_trimSpace]
        intro hblank
        simp [normalizeSubmittedAnswer_of_blank hblank] at hskip
      · exact ih h

/-- The judge names the candidate that matches, and only then. -/
theorem matchCandidate_matched (trimmed normalized : String) (candidates : List String) :
    ((matchCandidate unicode trimmed normalized candidates).1 = true →
      (matchCandidate unicode trimmed normalized candidates).2.2 ∈ candidates) ∧
    ((matchCandidate unicode trimmed normalized candidates).1 = false →
      (matchCandidate unicode trimmed normalized candidates).2.2 = "") := by
  induction candidates with
  | nil => simp [matchCandidate]
  | cons c rest ih =>
    simp only [matchCandidate]
    split_ifs with hfold hnorm
    · simp
    · simp
    · exact ⟨fun h => List.mem_cons_of_mem _ (ih.1 h), ih.2⟩

theorem judge_matched {definition : AnswerDefinition} {submitted : String}
    (h : (judgeSubmittedAnswer unicode definition submitted).1 = true) :
    trimSpace (judgeSubmittedAnswer unicode definition submitted).2.2 ≠ "" := by
  unfold judgeSubmittedAnswer at h ⊢
  dsimp only at h ⊢
  by_cases hblank : trimSpace submitted = ""
  · simp [hblank] at h
  by_cases hnorm : normalizeSubmittedAnswer unicode (trimSpace submitted) = ""
  · simp [hblank, hnorm] at h
  rw [if_neg hblank, if_neg hnorm] at h ⊢
  exact distinctCandidates_nonblank ((matchCandidate_matched _ _ _).1 h)

theorem judge_unmatched {definition : AnswerDefinition} {submitted : String}
    (h : (judgeSubmittedAnswer unicode definition submitted).1 = false) :
    (judgeSubmittedAnswer unicode definition submitted).2.2 = "" := by
  unfold judgeSubmittedAnswer at h ⊢
  dsimp only at h ⊢
  by_cases hblank : trimSpace submitted = ""
  · simp [hblank]
  by_cases hnorm : normalizeSubmittedAnswer unicode (trimSpace submitted) = ""
  · simp [hblank, hnorm]
  rw [if_neg hblank, if_neg hnorm] at h ⊢
  exact (matchCandidate_matched _ _ _).2 h

/-- `definition` with curated answers added at the end. -/
def extend (definition : AnswerDefinition) (more : List String) : AnswerDefinition :=
  { definition with acceptedAnswers := definition.acceptedAnswers ++ more }

theorem judge_extend (definition : AnswerDefinition) (more : List String) {submitted : String}
    (h : (judgeSubmittedAnswer unicode definition submitted).1 = true) :
    (judgeSubmittedAnswer unicode (extend definition more) submitted).1 = true := by
  rw [judgeSubmittedAnswer_fst] at h ⊢
  simp only [Bool.and_eq_true] at h ⊢
  refine ⟨h.1, ?_⟩
  unfold acceptedAnswerCandidates extend at *
  dsimp only at h ⊢
  rw [← List.append_assoc]
  generalize _ ++ definition.acceptedAnswers = candidates at *
  obtain ⟨seen', heq⟩ := @distinctCandidates_append unicode [] candidates more
  rw [heq, List.any_append, h.2, Bool.true_or]

theorem judge_learned (definition : AnswerDefinition) {submitted : String}
    (h : normalizeSubmittedAnswer unicode submitted ≠ "") :
    (judgeSubmittedAnswer unicode (extend definition [trimSpace submitted]) submitted).1 = true := by
  rw [judgeSubmittedAnswer_fst]
  have hmem : trimSpace submitted ∈
      (if definition.kind = .phrase && trimSpace definition.clozeAnswer ≠ "" then
        [definition.clozeAnswer] else canonicalTranslationCandidates definition.translation) ++
        (definition.acceptedAnswers ++ [trimSpace submitted]) := by simp
  obtain ⟨kept, hk, heq⟩ := @distinctCandidates_represents unicode _ _ _ hmem
    (by rw [normalizeSubmittedAnswer_trimSpace]; exact h) List.not_mem_nil
  rw [normalizeSubmittedAnswer_trimSpace] at heq
  simp only [h, ne_eq, not_false_eq_true, decide_true, Bool.true_and, List.any_eq_true]
  exact ⟨kept, hk, by simp [matched, heq]⟩

end AnswerCandidates
