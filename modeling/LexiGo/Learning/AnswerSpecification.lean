import LexiGo.Client.JudgeAgreement

/-! What the judge should accept: an answer that matches one of the candidates of its
definition, in one of two ways. The code keeps only the first candidate of each normal
form, so it can miss a candidate that matches in the other way. -/
namespace AnswerSpecification
open GoText AnswerJudgement AnswerCandidates NormalForms JudgeAgreement
open LearningItems (isDelimiter)

variable {unicode : Unicode}

section Specification

/-- The whole translation and its parts, or the cloze answer of a phrase that has one;
and the curated answers. -/
def candidates (definition : AnswerDefinition) : List String :=
  (if definition.kind = .phrase && trimSpace definition.clozeAnswer ≠ "" then
      [definition.clozeAnswer]
    else
      trimSpace definition.translation ::
        (fieldsFunc (fun c => c = ',' || c = ';' || c = '/')
          (trimSpace definition.translation)).map trimSpace) ++
    definition.acceptedAnswers

def Folds (unicode : Unicode) (submitted candidate : String) : Prop :=
  unicode.equalFold (trimSpace submitted) (trimSpace candidate) = true

/-- Some candidate that is not empty once normalised is the answer but for case, or has
the normal form of the answer. -/
def Accepts (unicode : Unicode) (definition : AnswerDefinition) (submitted : String) : Prop :=
  normalizeSubmittedAnswer unicode submitted ≠ "" ∧
    ∃ candidate ∈ candidates definition, normalizeSubmittedAnswer unicode candidate ≠ "" ∧
      (Folds unicode submitted candidate ∨
        normalizeSubmittedAnswer unicode submitted = normalizeSubmittedAnswer unicode candidate)

/-- No candidate before `candidate` has its normal form. -/
def First (unicode : Unicode) (l : List String) (candidate : String) : Prop :=
  ∃ before after, l = before ++ candidate :: after ∧
    ∀ c ∈ before, normalizeSubmittedAnswer unicode c ≠ normalizeSubmittedAnswer unicode candidate

/-- Where a candidate is the answer but for case, so is one that is the first of its
normal form, or one has the normal form of the answer. -/
def Unshadowed (unicode : Unicode) (definition : AnswerDefinition) (submitted : String) : Prop :=
  normalizeSubmittedAnswer unicode submitted ≠ "" →
    (∃ candidate ∈ candidates definition, normalizeSubmittedAnswer unicode candidate ≠ "" ∧
      Folds unicode submitted candidate) →
    ∃ candidate ∈ candidates definition, normalizeSubmittedAnswer unicode candidate ≠ "" ∧
      (First unicode (candidates definition) candidate ∧ Folds unicode submitted candidate ∨
        normalizeSubmittedAnswer unicode submitted = normalizeSubmittedAnswer unicode candidate)

end Specification

section Kept

/-- A candidate that is empty once normalised, or repeats a normal form, is not kept. -/
theorem distinct_skip {seen xs ys : List String} {y : String}
    (h : normalizeSubmittedAnswer unicode y = "" ∨ ∃ x ∈ xs,
      normalizeSubmittedAnswer unicode x = normalizeSubmittedAnswer unicode y) :
    distinctCandidates unicode seen (xs ++ y :: ys) = distinctCandidates unicode seen (xs ++ ys) := by
  have general : ∀ {xs seen : List String}, (normalizeSubmittedAnswer unicode y = "" ∨
      normalizeSubmittedAnswer unicode y ∈ seen ∨ ∃ x ∈ xs,
        normalizeSubmittedAnswer unicode x = normalizeSubmittedAnswer unicode y) →
      distinctCandidates unicode seen (xs ++ y :: ys) =
        distinctCandidates unicode seen (xs ++ ys) := by
    intro xs
    induction xs with
    | nil =>
      intro seen h
      have hskip : normalizeSubmittedAnswer unicode y = "" ∨
          normalizeSubmittedAnswer unicode y ∈ seen := by
        rcases h with h | h | ⟨x, hx, -⟩
        · exact .inl h
        · exact .inr h
        · cases hx
      rw [List.nil_append, distinctCandidates, normalizeSubmittedAnswer_trimSpace,
        if_pos (by simpa using hskip), List.nil_append]
    | cons x xs ih =>
      intro seen h
      simp only [List.cons_append, distinctCandidates, normalizeSubmittedAnswer_trimSpace]
      by_cases hx : (normalizeSubmittedAnswer unicode x = "" ||
          normalizeSubmittedAnswer unicode x ∈ seen) = true
      · rw [if_pos hx, if_pos hx]
        refine ih ?_
        rcases h with h | h | ⟨x', hx', heq⟩
        · exact .inl h
        · exact .inr (.inl h)
        · rcases List.mem_cons.1 hx' with rfl | hx'
          · rw [← heq]
            simp only [Bool.or_eq_true, decide_eq_true_eq] at hx
            exact hx.elim .inl fun hx => .inr (.inl hx)
          · exact .inr (.inr ⟨x', hx', heq⟩)
      · rw [if_neg hx, if_neg hx]
        refine congrArg _ (ih ?_)
        rcases h with h | h | ⟨x', hx', heq⟩
        · exact .inl h
        · exact .inr (.inl (List.mem_cons_of_mem _ h))
        · rcases List.mem_cons.1 hx' with rfl | hx'
          · exact .inr (.inl (by rw [heq]; exact List.mem_cons_self))
          · exact .inr (.inr ⟨x', hx', heq⟩)
  exact general (h.elim .inl fun h => .inr (.inr h))

/-- Parts of white space change nothing. -/
theorem distinct_nonblank (seen xs parts ys : List String) :
    distinctCandidates unicode seen (xs ++ (parts.filter (· ≠ "") ++ ys)) =
      distinctCandidates unicode seen (xs ++ (parts ++ ys)) := by
  induction parts generalizing xs with
  | nil => rfl
  | cons part parts ih =>
    by_cases hpart : part = ""
    · have hempty : normalizeSubmittedAnswer unicode part = "" := by
        rw [hpart]
        exact normalizeSubmittedAnswer_of_blank (by decide)
      rw [List.filter_cons_of_neg (by simpa using hpart), ih, List.cons_append,
        distinct_skip (.inl hempty)]
    · have hnext := ih (xs ++ [part])
      rw [List.filter_cons_of_pos (by simpa using hpart)]
      simpa using hnext

/-- The candidates that the code keeps are those that it would keep of all. -/
theorem accepted_eq (standard : Standard unicode) (definition : AnswerDefinition) :
    acceptedAnswerCandidates unicode definition =
      distinctCandidates unicode [] (candidates definition) := by
  unfold acceptedAnswerCandidates candidates
  dsimp only
  split
  · rfl
  change distinctCandidates unicode [] (canonicalTranslationCandidates definition.translation ++ _) =
    distinctCandidates unicode [] (trimSpace definition.translation ::
      (fieldsFunc isDelimiter (trimSpace definition.translation)).map trimSpace ++ _)
  have hnonblank := @distinct_nonblank unicode [] [trimSpace definition.translation]
    ((fieldsFunc isDelimiter (trimSpace definition.translation)).map trimSpace)
    definition.acceptedAnswers
  rw [server_alternatives] at hnonblank
  rw [List.cons_append, ← List.singleton_append, ← hnonblank, server_canonical]
  by_cases hblank : trimSpace definition.translation = ""
  · have hempty : normalizeSubmittedAnswer unicode "" = "" :=
      normalizeSubmittedAnswer_of_blank (by decide)
    rw [if_pos hblank, hblank]
    have halternatives : alternatives "" = [] := by decide
    rw [halternatives]
    simp [distinctCandidates, normalizeSubmittedAnswer_trimSpace, hempty]
  rw [if_neg hblank]
  by_cases hparts : (fieldsFunc isDelimiter (trimSpace definition.translation)).length ≤ 1
  · rw [if_pos hparts]
    have hlength := (alternatives_length (trimSpace definition.translation)).trans hparts
    cases halternatives : alternatives (trimSpace definition.translation) with
    | nil => rfl
    | cons a rest =>
      have hrest : rest = [] := by
        rw [halternatives, List.length_cons] at hlength
        exact List.length_eq_zero_iff.1 (by omega)
      subst hrest
      rw [List.singleton_append]
      exact (distinct_repeated (single_alternative standard halternatives)).symm
  · rw [if_neg hparts, List.singleton_append, List.cons_append]

theorem matched_trimSpace (submitted candidate : String) :
    matched unicode submitted (trimSpace candidate) = matched unicode submitted candidate := by
  unfold matched
  rw [trimSpace_trimSpace, normalizeSubmittedAnswer_trimSpace]

/-- What matches one of those kept is the first of its normal form. -/
theorem distinct_any {l seen : List String} {submitted : String} :
    (distinctCandidates unicode seen l).any (matched unicode submitted) = true ↔
      ∃ candidate, First unicode l candidate ∧ normalizeSubmittedAnswer unicode candidate ≠ "" ∧
        normalizeSubmittedAnswer unicode candidate ∉ seen ∧
        matched unicode submitted candidate = true := by
  induction l generalizing seen with
  | nil =>
    refine iff_of_false (by simp [distinctCandidates]) ?_
    rintro ⟨candidate, ⟨before, after, heq, -⟩, -⟩
    simp at heq
  | cons c rest ih =>
    have first_cons : ∀ candidate, First unicode (c :: rest) candidate ↔ candidate = c ∨
        First unicode rest candidate ∧
          normalizeSubmittedAnswer unicode c ≠ normalizeSubmittedAnswer unicode candidate := by
      intro candidate
      constructor
      · rintro ⟨before, after, heq, hbefore⟩
        cases before with
        | nil =>
          obtain ⟨rfl, -⟩ := List.cons.inj heq
          exact .inl rfl
        | cons b before =>
          obtain ⟨rfl, rfl⟩ := List.cons.inj heq
          exact .inr ⟨⟨before, after, rfl, fun d hd => hbefore d (List.mem_cons_of_mem _ hd)⟩,
            hbefore c List.mem_cons_self⟩
      · rintro (rfl | ⟨⟨before, after, rfl, hbefore⟩, hne⟩)
        · exact ⟨[], rest, rfl, by simp⟩
        · refine ⟨c :: before, after, rfl, fun d hd => ?_⟩
          rcases List.mem_cons.1 hd with rfl | hd
          · exact hne
          · exact hbefore d hd
    simp only [distinctCandidates, normalizeSubmittedAnswer_trimSpace, first_cons]
    by_cases hskip : (normalizeSubmittedAnswer unicode c = "" ||
        normalizeSubmittedAnswer unicode c ∈ seen) = true
    · rw [if_pos hskip, ih]
      simp only [Bool.or_eq_true, decide_eq_true_eq] at hskip
      constructor
      · rintro ⟨candidate, hfirst, hne, hnew, hmatched⟩
        refine ⟨candidate, .inr ⟨hfirst, ?_⟩, hne, hnew, hmatched⟩
        rintro heq
        rw [heq] at hskip
        exact hskip.elim hne hnew
      · rintro ⟨candidate, rfl | ⟨hfirst, -⟩, hne, hnew, hmatched⟩
        · exact (hskip.elim hne hnew).elim
        · exact ⟨candidate, hfirst, hne, hnew, hmatched⟩
    · rw [if_neg hskip, List.any_cons, Bool.or_eq_true, matched_trimSpace, ih]
      simp only [Bool.or_eq_true, decide_eq_true_eq, not_or] at hskip
      constructor
      · rintro (hmatched | ⟨candidate, hfirst, hne, hnew, hmatched⟩)
        · exact ⟨c, .inl rfl, hskip.1, hskip.2, hmatched⟩
        · rw [List.mem_cons, not_or] at hnew
          exact ⟨candidate, .inr ⟨hfirst, Ne.symm hnew.1⟩, hne, hnew.2, hmatched⟩
      · rintro ⟨candidate, rfl | ⟨hfirst, hother⟩, hne, hnew, hmatched⟩
        · exact .inl hmatched
        · refine .inr ⟨candidate, hfirst, hne, ?_, hmatched⟩
          rw [List.mem_cons, not_or]
          exact ⟨Ne.symm hother, hnew⟩

/-- Every normal form among some candidates has a first one. -/
theorem first_of_mem {l : List String} {candidate : String} (h : candidate ∈ l) :
    ∃ first ∈ l, First unicode l first ∧
      normalizeSubmittedAnswer unicode first = normalizeSubmittedAnswer unicode candidate := by
  cases hfind : l.find? fun c =>
      normalizeSubmittedAnswer unicode c = normalizeSubmittedAnswer unicode candidate with
  | none =>
    have hnone := List.find?_eq_none.1 hfind candidate h
    simp at hnone
  | some first =>
    obtain ⟨heq, before, after, hl, hbefore⟩ := List.find?_eq_some_iff_append.1 hfind
    have heq : normalizeSubmittedAnswer unicode first = normalizeSubmittedAnswer unicode candidate := by
      simpa using heq
    refine ⟨first, by rw [hl]; simp, ⟨before, after, hl, fun c hc => ?_⟩, heq⟩
    rw [heq]
    simpa using hbefore c hc

end Kept

theorem First.mem {l : List String} {candidate : String} (h : First unicode l candidate) :
    candidate ∈ l := by
  obtain ⟨before, after, rfl, -⟩ := h
  simp

/-- The verdict in the words of the specification. -/
theorem judge_iff (standard : Standard unicode) (definition : AnswerDefinition)
    (submitted : String) : (judgeSubmittedAnswer unicode definition submitted).1 = true ↔
      normalizeSubmittedAnswer unicode submitted ≠ "" ∧
        ∃ candidate ∈ candidates definition, normalizeSubmittedAnswer unicode candidate ≠ "" ∧
          (First unicode (candidates definition) candidate ∧ Folds unicode submitted candidate ∨
            normalizeSubmittedAnswer unicode submitted =
              normalizeSubmittedAnswer unicode candidate) := by
  rw [judgeSubmittedAnswer_fst, Bool.and_eq_true, decide_eq_true_eq, accepted_eq standard,
    distinct_any]
  refine and_congr_right fun _ => ⟨?_, ?_⟩
  · rintro ⟨candidate, hfirst, hne, -, hmatched⟩
    refine ⟨candidate, hfirst.mem, hne, ?_⟩
    rw [matched, Bool.or_eq_true, decide_eq_true_eq] at hmatched
    exact hmatched.imp_left fun hfold => ⟨hfirst, hfold⟩
  · rintro ⟨candidate, hmem, hne, ⟨hfirst, hfold⟩ | hnormal⟩
    · exact ⟨candidate, hfirst, hne, List.not_mem_nil, by rw [matched, hfold, Bool.true_or]⟩
    · obtain ⟨first, -, hfirst, heq⟩ := @first_of_mem unicode _ _ hmem
      refine ⟨first, hfirst, ?_, List.not_mem_nil, ?_⟩
      · rw [heq]
        exact hne
      rw [matched, hnormal, heq]
      simp

/-- Two definitions that differ in the order and the repetition of their curated answers. -/
structure SameAnswers (d d' : AnswerDefinition) : Prop where
  kind : d.kind = d'.kind
  translation : d.translation = d'.translation
  clozeAnswer : d.clozeAnswer = d'.clozeAnswer
  acceptedAnswers : ∀ answer, answer ∈ d.acceptedAnswers ↔ answer ∈ d'.acceptedAnswers

theorem SameAnswers.accepts {d d' : AnswerDefinition} (h : SameAnswers d d') (submitted : String) :
    Accepts unicode d submitted ↔ Accepts unicode d' submitted := by
  have hmem : ∀ candidate, candidate ∈ candidates d ↔ candidate ∈ candidates d' := by
    intro candidate
    unfold candidates
    rw [h.kind, h.clozeAnswer, h.translation, List.mem_append, List.mem_append,
      h.acceptedAnswers candidate]
  unfold Accepts
  simp only [hmem]

/-- The judge decides as specified exactly where no match is shadowed by an earlier
candidate of the same normal form; there the order of the curated answers is nothing to it. -/
theorem judge_specified_iff (standard : Standard unicode) (definition : AnswerDefinition)
    (submitted : String) :
    (((judgeSubmittedAnswer unicode definition submitted).1 = true ↔
        Accepts unicode definition submitted) ↔ Unshadowed unicode definition submitted) ∧
      ∀ other, SameAnswers definition other → Unshadowed unicode definition submitted →
        Unshadowed unicode other submitted →
        (judgeSubmittedAnswer unicode other submitted).1 =
          (judgeSubmittedAnswer unicode definition submitted).1 := by
  have specified : ∀ d, ((judgeSubmittedAnswer unicode d submitted).1 = true ↔
      Accepts unicode d submitted) ↔ Unshadowed unicode d submitted := by
    intro d
    rw [judge_iff standard]
    constructor
    · intro hiff hne hfolds
      obtain ⟨candidate, hmem, hnonblank, hfold⟩ := hfolds
      exact (hiff.2 ⟨hne, candidate, hmem, hnonblank, .inl hfold⟩).2
    · intro hunshadowed
      refine and_congr_right fun hne => ⟨?_, ?_⟩
      · rintro ⟨candidate, hmem, hnonblank, hmatch⟩
        exact ⟨candidate, hmem, hnonblank, hmatch.imp_left And.right⟩
      · rintro ⟨candidate, hmem, hnonblank, hfold | hnormal⟩
        · exact hunshadowed hne ⟨candidate, hmem, hnonblank, hfold⟩
        · exact ⟨candidate, hmem, hnonblank, .inr hnormal⟩
  refine ⟨specified definition, fun other hsame hfirst hsecond => ?_⟩
  rw [Bool.eq_iff_iff, (specified other).2 hsecond, (specified definition).2 hfirst]
  exact (hsame.accepts submitted).symm

/-- A word with the answers given. -/
def word (acceptedAnswers : List String) : AnswerDefinition := ⟨.word, "shape", "", acceptedAnswers⟩

theorem judge_specified_form :
    (((judgeSubmittedAnswer latin (word ["form"]) "Form").1 = true ↔
        Accepts latin (word ["form"]) "Form") ↔ Unshadowed latin (word ["form"]) "Form") ∧
      ∀ other, SameAnswers (word ["form"]) other → Unshadowed latin (word ["form"]) "Form" →
        Unshadowed latin other "Form" →
        (judgeSubmittedAnswer latin other "Form").1 =
          (judgeSubmittedAnswer latin (word ["form"]) "Form").1 :=
  judge_specified_iff standard_latin (word ["form"]) "Form"

/-- The second answer is the submission but for case, and is dropped for the first one;
in the other order it is kept. -/
theorem class_shadowed :
    ¬ ((judgeSubmittedAnswer latin (word ["class!", "class"]) "claſs").1 = true ↔
        Accepts latin (word ["class!", "class"]) "claſs") ∧
      (judgeSubmittedAnswer latin (word ["class!", "class"]) "claſs").1 ≠
        (judgeSubmittedAnswer latin (word ["class", "class!"]) "claſs").1 := by
  have hrejected : (judgeSubmittedAnswer latin (word ["class!", "class"]) "claſs").1 = false := by
    decide +kernel
  have haccepted : Accepts latin (word ["class!", "class"]) "claſs" := by
    refine ⟨by decide +kernel, "class", by decide +kernel, by decide +kernel, .inl ?_⟩
    unfold Folds
    decide +kernel
  refine ⟨fun h => ?_, by decide +kernel⟩
  rw [h.2 haccepted] at hrejected
  cases hrejected

end AnswerSpecification
