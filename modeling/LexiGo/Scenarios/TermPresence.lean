import LexiGo.Learning.AnswerNormalForm
import LexiGo.Scenarios.ScenarioRepository

/-! When a response holds a term: what the search in the padded texts finds is the
words of the term, one after the other among the words of the response. -/
namespace TermPresence
open SeparatedLists GoText AnswerJudgement NormalForms AnswerNormalForm ScenarioRepository
open JudgeAgreement (latin standard_latin)

variable {unicode : Unicode}

/-- The words of a text with blanks between them. -/
def wordTokens (s : String) : List (List Char) := (s.toList.splitOn ' ').filter fun word => word ≠ []

theorem contains_iff {s t : String} : contains s t = true ↔ t.toList <:+: s.toList := by
  rw [contains, List.any_eq_true, List.infix_iff_prefix_suffix]
  constructor
  · rintro ⟨rest, hrest, hpre⟩
    exact ⟨rest, List.isPrefixOf_iff_prefix.1 hpre, (List.mem_tails _ _).1 hrest⟩
  · rintro ⟨rest, hpre, hsuffix⟩
    exact ⟨rest, (List.mem_tails _ _).2 hsuffix, List.isPrefixOf_iff_prefix.2 hpre⟩

theorem IsWord.no_space (standard : Standard unicode) {word : List Char}
    (h : IsWord unicode word) : ' ' ∉ word := by
  intro hmem
  have hs := standard.space ' ' (by decide)
  have hchar := h.chars ' ' hmem
  simp [isWordChar, hs.letter, hs.number] at hchar

theorem wordTokens_intercalate {words : List (List Char)} (hne : ∀ word ∈ words, word ≠ [])
    (hspace : ∀ word ∈ words, ' ' ∉ word) :
    wordTokens (String.ofList ([' '].intercalate words)) = words := by
  rw [wordTokens, String.toList_ofList]
  by_cases hnil : words = []
  · subst hnil
    rfl
  · rw [List.splitOn_intercalate ' ' hspace hnil, List.filter_eq_self]
    exact fun word hword => by simpa using hne word hword

/-- A normal form is written from its words. -/
theorem normalized_tokens (standard : Standard unicode) (s : String) :
    normalizeSubmittedAnswer unicode s =
        String.ofList ([' '].intercalate (wordTokens (normalizeSubmittedAnswer unicode s))) ∧
      ∀ word ∈ wordTokens (normalizeSubmittedAnswer unicode s), ' ' ∉ word := by
  obtain ⟨words, hwords, heq⟩ := normalized_inWords standard s
  have htokens : wordTokens (normalizeSubmittedAnswer unicode s) = words := by
    rw [heq]
    exact wordTokens_intercalate (fun word hword => (hwords word hword).nonempty)
      fun word hword => IsWord.no_space standard (hwords word hword)
  rw [htokens]
  exact ⟨heq, fun word hword => IsWord.no_space standard (hwords word hword)⟩

theorem normalized_eq_empty (standard : Standard unicode) (s : String) :
    normalizeSubmittedAnswer unicode s = "" ↔ wordTokens (normalizeSubmittedAnswer unicode s) = [] := by
  constructor
  · intro h
    rw [h]
    rfl
  · intro h
    rw [(normalized_tokens standard s).1, h]
    rfl

theorem padded_normalized (standard : Standard unicode) {s : String}
    (h : wordTokens (normalizeSubmittedAnswer unicode s) ≠ []) :
    (" " ++ normalizeSubmittedAnswer unicode s ++ " ").toList =
      padded ' ' (wordTokens (normalizeSubmittedAnswer unicode s)) := by
  have heq := congrArg String.toList (normalized_tokens standard s).1
  rw [String.toList_ofList] at heq
  rw [padded, ← intercalate_closed h, ← heq, String.toList_append, String.toList_append]
  rfl

/-- The term is found where its words stand next to each other among those of the response. -/
theorem normalizedWholeTermPresent_iff (standard : Standard unicode) (response target : String) :
    normalizedWholeTermPresent unicode response target = true ↔
      wordTokens (normalizeSubmittedAnswer unicode target) ≠ [] ∧
        wordTokens (normalizeSubmittedAnswer unicode target) <:+:
          wordTokens (normalizeSubmittedAnswer unicode response) := by
  unfold normalizedWholeTermPresent
  dsimp only
  by_cases htarget : wordTokens (normalizeSubmittedAnswer unicode target) = []
  · have hblank := (normalized_eq_empty standard target).2 htarget
    rw [if_pos (by simp [hblank])]
    exact iff_of_false Bool.false_ne_true fun h => h.1 htarget
  have htext := mt (normalized_eq_empty standard target).1 htarget
  by_cases hresponse : wordTokens (normalizeSubmittedAnswer unicode response) = []
  · have hblank := (normalized_eq_empty standard response).2 hresponse
    rw [if_pos (by simp [hblank]), hresponse, List.infix_nil]
    exact iff_of_false Bool.false_ne_true fun h => h.1 h.2
  have hnonblank := mt (normalized_eq_empty standard response).1 hresponse
  rw [if_neg (by simp [htext, hnonblank]), contains_iff, padded_normalized standard htarget,
    padded_normalized standard hresponse,
    padded_infix_padded (normalized_tokens standard target).2 (normalized_tokens standard response).2]
  exact ⟨fun h => ⟨htarget, h⟩, fun h => h.2⟩

theorem present_rollback :
    normalizedWholeTermPresent latin "We plan a roll-back." "roll back" = true ↔
      wordTokens (normalizeSubmittedAnswer latin "roll back") ≠ [] ∧
        wordTokens (normalizeSubmittedAnswer latin "roll back") <:+:
          wordTokens (normalizeSubmittedAnswer latin "We plan a roll-back.") :=
  normalizedWholeTermPresent_iff standard_latin "We plan a roll-back." "roll back"

end TermPresence
