import LexiGo.Client.JudgeAgreement
import LexiGo.DistinctKeys
import LexiGo.OrderedPages
import LexiGo.Text.CodeUnits

/-! The options of a multiple-choice question: the item's own answer among those of other
items, in an order that the item's id and the texts fix. -/
namespace AnswerOptions
open LearningItems OrderedPages CodeUnits
open DistinctKeys hiding unseen

/-- An item by which questions and distractors are known. -/
structure OptionItem extends LearningItem where
  id : String

/-- A hash of 32 bits over the units of a text. -/
def hash (value : String) : UInt32 :=
  (units value).foldl (fun result unit => (result ^^^ unit.toUInt32) * 16777619) 2166136261

def answerOf (item : OptionItem) : String := exerciseAnswer item.toLearningItem

/-- By the hash of a text behind what it is prefixed with. -/
def hashLe (label : String) (left right : String) : Bool := hash (label ++ left) ≤ hash (label ++ right)

def isDistractor (current : OptionItem) (answer : String) : Bool :=
  answer ≠ "" && answer ≠ answerOf current

/-- The distinct answers of the pool that are not the item's own text, in their order. -/
def alternatives (current : OptionItem) (pool : List OptionItem) : List String :=
  orderBy (hashLe (current.id ++ ":"))
    (DistinctKeys.unseen id [] ((pool.map answerOf).filter (isDistractor current)))

def buildAnswerOptions (current : OptionItem) (pool : List OptionItem) (count : Nat) : List String :=
  orderBy (hashLe (current.id ++ ":option:"))
    (answerOf current :: (alternatives current pool).take (count - 1))

variable (unicode : GoText.Unicode) (lower : String → String)

def judgedCorrect (current : OptionItem) (answer : String) : Bool :=
  (judgeLearningAnswer unicode lower current.toLearningItem answer).correct

/-- What a multiple-choice question is meant to offer. -/
structure OneRightAnswer (current : OptionItem) (count : Nat) (options : List String) : Prop where
  distinct : options.Nodup
  short : options.length ≤ count
  own : options.count (answerOf current) = 1
  right : options.countP (judgedCorrect unicode lower current) = 1

/-- One answer of the pool comes before another: by the hash, then by where it comes first. -/
def comesBefore (current : OptionItem) (pool : List OptionItem) (other answer : String) : Bool :=
  hash (current.id ++ ":" ++ other) < hash (current.id ++ ":" ++ answer) ||
    hash (current.id ++ ":" ++ other) = hash (current.id ++ ":" ++ answer) &&
      (pool.map answerOf).idxOf other < (pool.map answerOf).idxOf answer

/-- How many of the distinct answers of the pool that may be distractors come before one. -/
def ahead (current : OptionItem) (pool : List OptionItem) (answer : String) : Nat :=
  (pool.map answerOf).dedup.countP fun other =>
    isDistractor current other && comesBefore current pool other answer

/-- An answer of another text that the judge takes as well has enough others before it. -/
def Behind (current : OptionItem) (pool : List OptionItem) (count : Nat) : Prop :=
  ∀ answer ∈ pool.map answerOf, isDistractor current answer = true →
    judgedCorrect unicode lower current answer = true → count - 1 ≤ ahead current pool answer

section Judging

variable {unicode lower} {item : LearningItem}

theorem trim_orElse {s t : String} (hs : JsText.trim s = s) (ht : JsText.trim t = t) :
    JsText.trim (orElse s t) = orElse s t := by
  unfold orElse
  split
  · exact ht
  · exact hs

theorem trim_inferClozeAnswer (prompt : String) (cloze : Option String) :
    JsText.trim (inferClozeAnswer prompt cloze) = inferClozeAnswer prompt cloze := by
  unfold inferClozeAnswer
  split
  · rfl
  · split
    · rfl
    · dsimp only
      split
      · rfl
      · exact JsText.trim_trim _

theorem trim_exerciseAnswer (item : LearningItem) :
    JsText.trim (exerciseAnswer item) = exerciseAnswer item := by
  unfold exerciseAnswer
  split
  · refine trim_orElse ?_ (trim_orElse (trim_inferClozeAnswer _ _) (JsText.trim_trim _))
    cases item.clozeAnswer with
    | none => rfl
    | some clozeAnswer => exact JsText.trim_trim clozeAnswer
  · exact JsText.trim_trim _

/-- The first answer that is accepted is the one that is asked for. -/
theorem accepted_first (h : normalizeAnswer unicode lower (exerciseAnswer item) ≠ "") :
    ∃ rest, acceptedAnswersForItem unicode lower item = exerciseAnswer item :: rest := by
  have hne : exerciseAnswer item ≠ "" := by
    intro hempty
    rw [hempty] at h
    exact h rfl
  have hprimary : ∃ rest, primaryCandidates item = exerciseAnswer item :: rest := by
    unfold primaryCandidates
    split
    · unfold canonicalTranslationCandidates
      dsimp only
      rw [trim_exerciseAnswer, if_neg hne]
      split <;> exact ⟨_, rfl⟩
    · exact ⟨[], rfl⟩
  obtain ⟨rest, hrest⟩ := hprimary
  rw [acceptedAnswersForItem, hrest, List.cons_append, unseen,
    if_neg (by simpa using h)]
  exact ⟨_, rfl⟩

theorem judged_own (h : normalizeAnswer unicode lower (exerciseAnswer item) ≠ "") :
    (judgeLearningAnswer unicode lower item (exerciseAnswer item)).correct = true := by
  obtain ⟨rest, hrest⟩ := accepted_first h
  unfold judgeLearningAnswer
  dsimp only
  rw [trim_exerciseAnswer, if_neg h, hrest, matchAnswer, trim_exerciseAnswer, if_pos rfl]

end Judging

section Ranks

variable (current : OptionItem) (pool : List OptionItem)

theorem hashLe_isKey (label : String) : IsKey (hashLe label) where
  total := fun a b => by
    rw [hashLe, hashLe, decide_eq_true_iff, decide_eq_true_iff]
    exact UInt32.le_total _ _
  trans := fun a b c hab hbc => by
    rw [hashLe, decide_eq_true_iff] at hab hbc ⊢
    exact UInt32.le_trans hab hbc

/-- Distinct texts are listed by where each comes first. -/
theorem unseen_idxOf (p : String → Bool) (l : List String) : ∀ seen,
    (DistinctKeys.unseen id seen (l.filter p)).Pairwise fun a b => l.idxOf a < l.idxOf b := by
  induction l with
  | nil => exact fun _ => List.Pairwise.nil
  | cons x l ih =>
    intro seen
    -- behind another first element every place is one further
    have hshift : ∀ seen', (∀ a ∈ DistinctKeys.unseen id seen' (l.filter p), x ≠ a) →
        (DistinctKeys.unseen id seen' (l.filter p)).Pairwise
          fun a b => (x :: l).idxOf a < (x :: l).idxOf b := by
      intro seen' hother
      refine (ih seen').imp_of_mem fun {a b} ha hb hlt => ?_
      rw [List.idxOf_cons_ne _ (hother a ha), List.idxOf_cons_ne _ (hother b hb)]
      omega
    by_cases hp : p x = true
    · rw [List.filter_cons_of_pos hp, DistinctKeys.unseen]
      split
      · next hseen =>
        exact hshift seen fun a ha heq => unseen_fresh _ a ha (heq ▸ hseen)
      · have hother : ∀ a ∈ DistinctKeys.unseen id (x :: seen) (l.filter p), x ≠ a :=
          fun a ha heq => unseen_fresh _ a ha (heq ▸ List.mem_cons_self)
        refine List.pairwise_cons.2 ⟨fun a ha => ?_, hshift (x :: seen) hother⟩
        rw [List.idxOf_cons_self, List.idxOf_cons_ne _ (hother a ha)]
        omega
    · rw [List.filter_cons_of_neg hp]
      refine hshift seen fun a ha heq => ?_
      have hmem : a ∈ l.filter p := (unseen_sublist _ seen).subset ha
      exact hp (heq ▸ (List.mem_filter.1 hmem).2)

theorem mem_alternatives {answer : String} :
    answer ∈ alternatives current pool ↔
      answer ∈ pool.map answerOf ∧ isDistractor current answer = true := by
  have hmem : answer ∈ DistinctKeys.unseen id [] ((pool.map answerOf).filter (isDistractor current)) ↔
      answer ∈ (pool.map answerOf).filter (isDistractor current) := by
    constructor
    · exact fun h => (unseen_sublist _ []).subset h
    · intro h
      have hkeys : id answer ∈ [] ∨ id answer ∈ (DistinctKeys.unseen id []
        ((pool.map answerOf).filter (isDistractor current))).map id := unseen_covers _ [] h
      rw [List.map_id] at hkeys
      exact hkeys.resolve_left List.not_mem_nil
  rw [alternatives, (orderBy_perm _ _).mem_iff, hmem, List.mem_filter]

theorem unseen_texts_nodup (l : List String) : (DistinctKeys.unseen id [] l).Nodup := by
  have hkeys : ((DistinctKeys.unseen id [] l).map id).Nodup := unseen_nodup l []
  rwa [List.map_id] at hkeys

theorem alternatives_nodup : (alternatives current pool).Nodup :=
  (orderBy_perm _ _).nodup_iff.2 (unseen_texts_nodup _)

theorem alternatives_sorted :
    (alternatives current pool).Pairwise fun a b => comesBefore current pool a b = true := by
  have hkey := hashLe_isKey (current.id ++ ":")
  rw [List.pairwise_iff_forall_sublist]
  intro a b hpair
  have hle := List.pairwise_iff_forall_sublist.1 (orderBy_sorted hkey _) hpair
  rw [hashLe, decide_eq_true_iff] at hle
  unfold comesBefore
  by_cases hlt : hash (current.id ++ ":" ++ a) < hash (current.id ++ ":" ++ b)
  · simp [hlt]
  · have heq := UInt32.le_antisymm hle (UInt32.not_lt.1 hlt)
    have hback : hashLe (current.id ++ ":") b a = true := by
      rw [hashLe, decide_eq_true_iff, heq]
      exact UInt32.le_refl _
    have hcame := orderBy_stable hkey (unseen_texts_nodup _) hpair hback
    have hidx := List.pairwise_iff_forall_sublist.1
      (unseen_idxOf (isDistractor current) (pool.map answerOf) []) hcame
    simp [heq, hidx]

theorem comesBefore_asymm (a b : String) (h : comesBefore current pool a b = true) :
    comesBefore current pool b a = false := by
  simp only [comesBefore, Bool.or_eq_true, Bool.and_eq_true, decide_eq_true_eq] at h
  simp only [comesBefore, Bool.or_eq_false_iff, Bool.and_eq_false_iff, decide_eq_false_iff_not]
  rcases h with hlt | ⟨heq, hlt⟩
  · exact ⟨UInt32.lt_asymm hlt, .inl (UInt32.ne_of_lt hlt).symm⟩
  · exact ⟨by rw [heq]; exact UInt32.lt_irrefl _, .inr (by omega)⟩

/-- Which answers of the pool are shown. -/
theorem shown_iff {answer : String} (h : answer ∈ alternatives current pool) (n : Nat) :
    answer ∈ (alternatives current pool).take n ↔ ahead current pool answer < n := by
  have hcount : ((alternatives current pool).countP fun other => comesBefore current pool other answer) =
      ahead current pool answer := by
    have hperm : (alternatives current pool).Perm
        ((pool.map answerOf).dedup.filter (isDistractor current)) := by
      refine (List.perm_ext_iff_of_nodup (alternatives_nodup current pool)
        ((List.nodup_dedup _).filter _)).2 fun other => ?_
      rw [mem_alternatives, List.mem_filter, List.mem_dedup]
    rw [hperm.countP_eq, List.countP_filter, ahead]
    exact List.countP_congr fun other _ => by rw [Bool.and_comm]
  rw [mem_take_iff (alternatives_nodup current pool) (alternatives_sorted current pool)
    (comesBefore_asymm current pool) h, hcount]

theorem own_not_alternative : answerOf current ∉ alternatives current pool := by
  intro hmem
  have hdistractor := ((mem_alternatives current pool).1 hmem).2
  simp [isDistractor] at hdistractor

end Ranks

section Options

variable {unicode lower} (current : OptionItem) (pool : List OptionItem)

theorem options_perm (count : Nat) : (buildAnswerOptions current pool count).Perm
    (answerOf current :: (alternatives current pool).take (count - 1)) := orderBy_perm _ _

theorem options_nodup (count : Nat) : (buildAnswerOptions current pool count).Nodup := by
  rw [(options_perm current pool count).nodup_iff, List.nodup_cons]
  constructor
  · exact fun hmem => own_not_alternative current pool (List.mem_of_mem_take hmem)
  · exact (alternatives_nodup current pool).sublist (List.take_sublist _ _)

theorem options_length {count : Nat} (hcount : 1 ≤ count) :
    (buildAnswerOptions current pool count).length ≤ count := by
  rw [(options_perm current pool count).length_eq, List.length_cons, List.length_take]
  omega

theorem options_own (count : Nat) :
    (buildAnswerOptions current pool count).count (answerOf current) = 1 := by
  refine List.count_eq_one_of_mem (options_nodup current pool count) ?_
  rw [(options_perm current pool count).mem_iff]
  exact List.mem_cons_self

/-- Besides the item's own answer, the judge takes those distractors that are shown. -/
theorem options_right (h : normalizeAnswer unicode lower (answerOf current) ≠ "") (count : Nat) :
    (buildAnswerOptions current pool count).countP (judgedCorrect unicode lower current) = 1 ↔
      ∀ answer ∈ (alternatives current pool).take (count - 1),
        judgedCorrect unicode lower current answer = false := by
  have hown : judgedCorrect unicode lower current (answerOf current) = true := judged_own h
  rw [(options_perm current pool count).countP_eq, List.countP_cons_of_pos hown]
  constructor
  · intro hone answer hanswer
    have hnone := List.countP_eq_zero.1 (Nat.succ.inj hone) answer hanswer
    simpa using hnone
  · intro hnone
    rw [List.countP_eq_zero.2 fun answer hanswer => by simp [hnone answer hanswer]]

theorem shown_rejected_iff (count : Nat) :
    (∀ answer ∈ (alternatives current pool).take (count - 1),
        judgedCorrect unicode lower current answer = false) ↔
      Behind unicode lower current pool count := by
  constructor
  · intro hrejected answer hanswer hdistractor hjudged
    have hmem := (mem_alternatives current pool).2 ⟨hanswer, hdistractor⟩
    by_contra hlt
    have hshown := (shown_iff current pool hmem (count - 1)).2 (by omega)
    rw [hrejected answer hshown] at hjudged
    cases hjudged
  · intro hbehind answer hshown
    have hmem := List.mem_of_mem_take hshown
    obtain ⟨hanswer, hdistractor⟩ := (mem_alternatives current pool).1 hmem
    have hlt := (shown_iff current pool hmem (count - 1)).1 hshown
    rw [Bool.eq_false_iff]
    intro hjudged
    have hle := hbehind answer hanswer hdistractor hjudged
    omega

/-- The options have one right answer exactly when every other text of the pool that the judge
takes stands behind enough of the distractors. -/
theorem oneRightAnswer_iff (h : normalizeAnswer unicode lower (answerOf current) ≠ "") {count : Nat}
    (hcount : 1 ≤ count) :
    OneRightAnswer unicode lower current count (buildAnswerOptions current pool count) ↔
      Behind unicode lower current pool count := by
  rw [← shown_rejected_iff, ← options_right current pool h]
  constructor
  · exact fun hone => hone.right
  · intro hright
    exact ⟨options_nodup current pool count, options_length current pool hcount,
      options_own current pool count, hright⟩

def wordItem (id answer : String) : OptionItem where
  id := id
  kind := .word
  prompt := id
  answer := answer

/-- A pool in which the answer of another item is a part of this item's translation. -/
theorem partOfTranslation_two :
    normalizeAnswer JudgeAgreement.latin JudgeAgreement.latinLower
        (answerOf (wordItem "incident" "event, accident")) ≠ "" ∧
      ¬ OneRightAnswer JudgeAgreement.latin JudgeAgreement.latinLower
        (wordItem "incident" "event, accident") 4
        (buildAnswerOptions (wordItem "incident" "event, accident")
          [wordItem "incident" "event, accident", wordItem "crash" "accident"] 4) := by
  constructor
  · decide +kernel
  · intro hone
    have htwo : (buildAnswerOptions (wordItem "incident" "event, accident")
        [wordItem "incident" "event, accident", wordItem "crash" "accident"] 4).countP
          (judgedCorrect JudgeAgreement.latin JudgeAgreement.latinLower
            (wordItem "incident" "event, accident")) = 2 := by decide +kernel
    rw [hone.right] at htwo
    cases htwo

/-- The same question with a pool that has no such answer. -/
theorem partOfTranslation_one :
    normalizeAnswer JudgeAgreement.latin JudgeAgreement.latinLower
        (answerOf (wordItem "incident" "event, accident")) ≠ "" ∧ 1 ≤ 4 ∧
      (OneRightAnswer JudgeAgreement.latin JudgeAgreement.latinLower
          (wordItem "incident" "event, accident") 4
          (buildAnswerOptions (wordItem "incident" "event, accident") [wordItem "rain" "water"] 4) ↔
        Behind JudgeAgreement.latin JudgeAgreement.latinLower (wordItem "incident" "event, accident")
          [wordItem "rain" "water"] 4) :=
  ⟨by decide +kernel, by decide, oneRightAnswer_iff _ _ (by decide +kernel) (by decide)⟩

end Options

end AnswerOptions
