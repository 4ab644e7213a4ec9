import LexiGo.Client.JudgeAgreement
import LexiGo.SeparatedLists

/-! The normal form of an answer: the words that it consists of, what normalising it
again does, and which apostrophes it takes no notice of. -/
namespace AnswerNormalForm
open ListParts SeparatedLists GoText AnswerJudgement NormalForms
open JudgeAgreement (latin standard_latin)

variable {unicode : Unicode}

/-- The character that the loop tests in place of `c`. -/
def lowered (unicode : Unicode) (c : Char) : Char :=
  if unicode.toLower c = 'ё' then 'е' else unicode.toLower c

def isWordChar (unicode : Unicode) (c : Char) : Bool := unicode.isLetter c || unicode.isNumber c

theorem step_word {c : Char} (h : isWordChar unicode (lowered unicode c) = true)
    (written : List Char) (spacePending : Bool) :
    normalizeStep unicode (written, spacePending) c =
      (lowered unicode c :: (if spacePending && !written.isEmpty then ' ' :: written else written),
        false) :=
  if_pos h

theorem step_other {c : Char} (h : isWordChar unicode (lowered unicode c) = false)
    (written : List Char) (spacePending : Bool) :
    ∃ spacePending', normalizeStep unicode (written, spacePending) c = (written, spacePending') := by
  have h : ¬ (unicode.isLetter (lowered unicode c) || unicode.isNumber (lowered unicode c)) = true := by
    rw [← isWordChar, h]
    simp
  unfold normalizeStep
  dsimp only
  rw [← lowered, if_neg h]
  split
  · exact ⟨_, rfl⟩
  · exact ⟨_, rfl⟩

section Words

/-- A word of a normal form. -/
structure IsWord (unicode : Unicode) (word : List Char) : Prop where
  nonempty : word ≠ []
  chars : ∀ c ∈ word, isWordChar unicode c = true

theorem IsWord.reverse {word : List Char} (h : IsWord unicode word) :
    IsWord unicode word.reverse :=
  ⟨by simpa using h.nonempty, fun c hc => h.chars c (by simpa using hc)⟩

theorem IsWord.cons {word : List Char} (h : IsWord unicode word) {c : Char}
    (hc : isWordChar unicode c = true) : IsWord unicode (c :: word) := by
  refine ⟨by simp, fun d hd => ?_⟩
  rcases List.mem_cons.1 hd with rfl | hd
  · exact hc
  · exact h.chars d hd

theorem isWord_singleton {c : Char} (hc : isWordChar unicode c = true) : IsWord unicode [c] :=
  ⟨by simp, by simpa using hc⟩

/-- Words with single spaces between them, newest first. -/
def Spaced (unicode : Unicode) (written : List Char) : Prop :=
  ∃ words, (∀ word ∈ words, IsWord unicode word) ∧ written = [' '].intercalate words

theorem spaced_nil : Spaced unicode [] := ⟨[], by simp, rfl⟩

theorem Spaced.cons {written : List Char} (h : Spaced unicode written) {c : Char}
    (hc : isWordChar unicode c = true) : Spaced unicode (c :: written) := by
  obtain ⟨words, hwords, rfl⟩ := h
  cases words with
  | nil => exact ⟨[[c]], by simpa using isWord_singleton hc, by simp⟩
  | cons word words =>
    refine ⟨(c :: word) :: words, ?_, ?_⟩
    · rintro w (_ | ⟨_, hw⟩)
      · exact (hwords word List.mem_cons_self).cons hc
      · exact hwords w (List.mem_cons_of_mem _ hw)
    · cases words <;> simp [List.intercalate_cons_cons]

theorem Spaced.next {written : List Char} (h : Spaced unicode written) (hne : written ≠ []) {c : Char}
    (hc : isWordChar unicode c = true) : Spaced unicode (c :: ' ' :: written) := by
  obtain ⟨words, hwords, rfl⟩ := h
  refine ⟨[c] :: words, ?_, ?_⟩
  · rintro w (_ | ⟨_, hw⟩)
    · exact isWord_singleton hc
    · exact hwords w hw
  · have hwords : words ≠ [] := by
      rintro rfl
      exact hne rfl
    rw [List.intercalate_cons_of_ne_nil hwords]
    rfl

theorem spaced_foldl {l : List Char} {state : List Char × Bool} (h : Spaced unicode state.1) :
    Spaced unicode (l.foldl (normalizeStep unicode) state).1 := by
  induction l generalizing state with
  | nil => exact h
  | cons c l ih =>
    refine ih ?_
    obtain ⟨written, spacePending⟩ := state
    cases hc : isWordChar unicode (lowered unicode c) with
    | false =>
      obtain ⟨spacePending', heq⟩ := step_other hc written spacePending
      rw [heq]
      exact h
    | true =>
      rw [step_word hc]
      by_cases hspace : (spacePending && !written.isEmpty) = true
      · rw [if_pos hspace]
        refine Spaced.next h ?_ hc
        rintro rfl
        simp at hspace
      · rw [if_neg hspace]
        exact Spaced.cons h hc

theorem letters_spaced (l : List Char) : Spaced unicode (letters unicode l) := by
  obtain ⟨words, hwords, heq⟩ := @spaced_foldl unicode l ([], false) spaced_nil
  refine ⟨(words.map List.reverse).reverse, fun word hword => ?_, ?_⟩
  · rw [List.mem_reverse, List.mem_map] at hword
    obtain ⟨word, hword, rfl⟩ := hword
    exact (hwords word hword).reverse
  · rw [letters, heq, reverse_intercalate]

end Words

section Again

/-- What the standard says of lowering, and of the three apostrophes: two of them are
punctuation, the third is a letter. -/
structure Apostrophes (unicode : Unicode) : Prop where
  lowered : ∀ c, unicode.toLower (unicode.toLower c) = unicode.toLower c
  ie : unicode.toLower 'е' = 'е'
  typewriter : Separates unicode '\''
  rightQuote : Separates unicode '\u2019'
  modifier : unicode.toLower '\u02BC' = '\u02BC'
  modifierLetter : unicode.isLetter '\u02BC' = true

/-- A character that is written as it is. -/
structure Fixed (unicode : Unicode) (c : Char) : Prop where
  lowered : lowered unicode c = c
  word : isWordChar unicode c = true

theorem fixed_lowered (apostrophes : Apostrophes unicode) {c : Char}
    (h : isWordChar unicode (lowered unicode c) = true) : Fixed unicode (lowered unicode c) := by
  refine ⟨?_, h⟩
  by_cases hyo : unicode.toLower c = 'ё'
  · have heq : lowered unicode c = 'е' := if_pos hyo
    rw [heq, lowered, apostrophes.ie, if_neg (by decide)]
  · have heq : lowered unicode c = unicode.toLower c := if_neg hyo
    rw [heq, lowered, apostrophes.lowered, if_neg hyo]

theorem foldl_fixed (apostrophes : Apostrophes unicode) {l : List Char} {state : List Char × Bool}
    (h : ∀ c ∈ state.1, c = ' ' ∨ Fixed unicode c) :
    ∀ c ∈ (l.foldl (normalizeStep unicode) state).1, c = ' ' ∨ Fixed unicode c := by
  induction l generalizing state with
  | nil => exact h
  | cons c l ih =>
    refine ih ?_
    obtain ⟨written, spacePending⟩ := state
    cases hc : isWordChar unicode (lowered unicode c) with
    | false =>
      obtain ⟨spacePending', heq⟩ := step_other hc written spacePending
      rw [heq]
      exact h
    | true =>
      rw [step_word hc]
      intro d hd
      rcases List.mem_cons.1 hd with rfl | hd
      · exact .inr (fixed_lowered apostrophes hc)
      · split at hd
        · rcases List.mem_cons.1 hd with rfl | hd
          · exact .inl rfl
          · exact h d hd
        · exact h d hd

theorem letters_fixed (apostrophes : Apostrophes unicode) {l : List Char} {c : Char}
    (h : c ∈ letters unicode l) : c = ' ' ∨ Fixed unicode c := by
  refine @foldl_fixed unicode apostrophes l ([], false) (by simp) c ?_
  simpa [letters] using h

theorem step_fixed {c : Char} (h : Fixed unicode c) (written : List Char) :
    normalizeStep unicode (written, false) c = (c :: written, false) := by
  have hword : isWordChar unicode (lowered unicode c) = true := by
    rw [h.lowered]
    exact h.word
  rw [step_word hword, h.lowered]
  rfl

theorem foldl_word {word : List Char} (h : ∀ c ∈ word, Fixed unicode c) (written : List Char) :
    word.foldl (normalizeStep unicode) (written, false) = (word.reverse ++ written, false) := by
  induction word generalizing written with
  | nil => rfl
  | cons c word ih =>
    rw [List.foldl_cons, step_fixed (h c List.mem_cons_self),
      ih (fun d hd => h d (List.mem_cons_of_mem _ hd))]
    simp

/-- Words with single spaces between them are written as they are. -/
theorem foldl_spaced (standard : Standard unicode) {words : List (List Char)}
    (hwords : ∀ word ∈ words, word ≠ [] ∧ ∀ c ∈ word, Fixed unicode c) (written : List Char)
    (spacePending : Bool) (hne : words ≠ []) :
    ([' '].intercalate words).foldl (normalizeStep unicode) (written, spacePending) =
      (([' '].intercalate words).reverse ++
        (if spacePending && !written.isEmpty then ' ' :: written else written), false) := by
  induction words generalizing written spacePending with
  | nil => exact absurd rfl hne
  | cons word words ih =>
    obtain ⟨hword, hfixed⟩ := hwords word List.mem_cons_self
    obtain ⟨c, rest, rfl⟩ := List.exists_cons_of_ne_nil hword
    have hc := hfixed c List.mem_cons_self
    have hstep : isWordChar unicode (lowered unicode c) = true := by
      rw [hc.lowered]
      exact hc.word
    have first : (c :: rest).foldl (normalizeStep unicode) (written, spacePending) =
        ((c :: rest).reverse ++
          (if spacePending && !written.isEmpty then ' ' :: written else written), false) := by
      rw [List.foldl_cons, step_word hstep, hc.lowered,
        foldl_word fun d hd => hfixed d (List.mem_cons_of_mem _ hd)]
      simp
    cases words with
    | nil => simpa using first
    | cons word' words =>
      have hblank : Blank unicode ' ' := blank_of_space standard (by decide)
      have hrest := ih (fun w hw => hwords w (List.mem_cons_of_mem _ hw))
        ((c :: rest).reverse ++
          (if spacePending && !written.isEmpty then ' ' :: written else written)) true (by simp)
      rw [List.intercalate_cons_cons, List.foldl_append, List.foldl_append, first, List.foldl_cons,
        hblank, List.foldl_nil]
      rw [show (!((c :: rest).reverse ++ (if spacePending && !written.isEmpty then ' ' :: written
        else written)).isEmpty) = true by simp, hrest]
      simp

/-- What has been written is written the same once more. -/
theorem letters_letters (standard : Standard unicode) (apostrophes : Apostrophes unicode)
    (l : List Char) : letters unicode (letters unicode l) = letters unicode l := by
  obtain ⟨words, hwords, heq⟩ := @letters_spaced unicode l
  have hspace : isWordChar unicode ' ' = false := by
    have hs := standard.space ' ' (by decide)
    simp [isWordChar, hs.letter, hs.number]
  have hfixed : ∀ word ∈ words, word ≠ [] ∧ ∀ c ∈ word, Fixed unicode c := by
    refine fun word hword => ⟨(hwords word hword).nonempty, fun c hc => ?_⟩
    have hmem : c ∈ letters unicode l := by
      rw [heq]
      exact mem_intercalate hword hc
    rcases letters_fixed apostrophes hmem with rfl | hfixed
    · rw [(hwords word hword).chars ' ' hc] at hspace
      cases hspace
    · exact hfixed
  cases words with
  | nil =>
    rw [heq]
    rfl
  | cons word words =>
    have hfold := foldl_spaced standard hfixed [] false (by simp)
    rw [← heq] at hfold
    rw [letters, hfold]
    simp

end Again

section Insertion

/-- The characters that the code calls apostrophes. -/
def apostropheChars : List Char := ['\'', '\u2019', '\u02BC']

/-- An apostrophe that is no letter is passed over. -/
theorem step_apostrophe {c : Char} (h : Separates unicode c) (hc : c = '\'' ∨ c = '\u2019')
    (state : List Char × Bool) : normalizeStep unicode state c = state := by
  obtain ⟨written, spacePending⟩ := state
  have hother : ¬ (unicode.isLetter c || unicode.isNumber c) = true := by
    simp [h.letter, h.number]
  have hlowered : lowered unicode c = c := by
    rw [lowered, h.lower]
    rcases hc with rfl | rfl <;> rfl
  unfold normalizeStep
  dsimp only
  rw [← lowered, hlowered, if_neg hother, if_pos]
  rcases hc with rfl | rfl <;> decide

theorem letters_insert {c : Char} (h : ∀ state, normalizeStep unicode state c = state)
    (u v : List Char) : letters unicode (u ++ c :: v) = letters unicode (u ++ v) := by
  unfold letters
  rw [List.foldl_append, List.foldl_cons, h, ← List.foldl_append]

/-- Each character that counts is written once. -/
theorem wordChars_foldl (standard : Standard unicode) (l : List Char)
    (state : List Char × Bool) :
    (l.foldl (normalizeStep unicode) state).1.countP (isWordChar unicode) =
      state.1.countP (isWordChar unicode) +
        l.countP fun c => isWordChar unicode (lowered unicode c) := by
  have hspace : isWordChar unicode ' ' = false := by
    have hs := standard.space ' ' (by decide)
    simp [isWordChar, hs.letter, hs.number]
  induction l generalizing state with
  | nil => rfl
  | cons c l ih =>
    obtain ⟨written, spacePending⟩ := state
    rw [List.foldl_cons, ih, List.countP_cons]
    cases hc : isWordChar unicode (lowered unicode c) with
    | false =>
      obtain ⟨spacePending', heq⟩ := step_other hc written spacePending
      rw [heq]
      simp
    | true =>
      have hwritten : (if spacePending && !written.isEmpty then ' ' :: written else written).countP
          (isWordChar unicode) = written.countP (isWordChar unicode) := by
        split
        · rw [List.countP_cons, hspace]
          simp
        · rfl
      rw [step_word hc, List.countP_cons, hc, hwritten]
      simp only [if_true]
      omega

theorem wordChars_letters (standard : Standard unicode) (l : List Char) :
    (letters unicode l).countP (isWordChar unicode) =
      l.countP fun c => isWordChar unicode (lowered unicode c) := by
  rw [letters, List.countP_reverse, wordChars_foldl standard]
  simp

/-- An apostrophe that is a letter is written, wherever it stands. -/
theorem letters_insert_letter (standard : Standard unicode) {c : Char}
    (h : isWordChar unicode (lowered unicode c) = true) (u v : List Char) :
    letters unicode (u ++ c :: v) ≠ letters unicode (u ++ v) := by
  intro heq
  have hcount := congrArg (List.countP (isWordChar unicode)) heq
  rw [wordChars_letters standard, wordChars_letters standard, List.countP_append,
    List.countP_append, List.countP_cons, h] at hcount
  simp only [if_true] at hcount
  omega

end Insertion

section Projection

/-- Words of letters and numbers, with single spaces between them. -/
def InWords (unicode : Unicode) (s : String) : Prop :=
  ∃ words, (∀ word ∈ words, IsWord unicode word) ∧ s = String.ofList ([' '].intercalate words)

theorem normalized_inWords (standard : Standard unicode) (s : String) :
    InWords unicode (normalizeSubmittedAnswer unicode s) := by
  obtain ⟨words, hwords, heq⟩ := @letters_spaced unicode s.toList
  exact ⟨words, hwords, by rw [normalizeSubmittedAnswer_eq standard, heq]⟩

theorem normalized_again (standard : Standard unicode) (apostrophes : Apostrophes unicode)
    (s : String) : normalizeSubmittedAnswer unicode (normalizeSubmittedAnswer unicode s) =
      normalizeSubmittedAnswer unicode s := by
  rw [normalizeSubmittedAnswer_eq standard, normalizeSubmittedAnswer_eq standard,
    String.toList_ofList, letters_letters standard apostrophes]

theorem normalized_insert (standard : Standard unicode) {u v : List Char} {a : Char} :
    normalizeSubmittedAnswer unicode (String.ofList (u ++ a :: v)) =
        normalizeSubmittedAnswer unicode (String.ofList (u ++ v)) ↔
      letters unicode (u ++ a :: v) = letters unicode (u ++ v) := by
  rw [normalizeSubmittedAnswer_eq standard, normalizeSubmittedAnswer_eq standard,
    String.toList_ofList, String.toList_ofList, ← String.toList_inj, String.toList_ofList,
    String.toList_ofList]

/-- Normalising is a projection onto words, and passes over an apostrophe unless it is
the one that the standard counts among the letters. -/
theorem normalized_iff (standard : Standard unicode) (apostrophes : Apostrophes unicode)
    (s : String) (u v : List Char) {a : Char} (ha : a ∈ apostropheChars) :
    (normalizeSubmittedAnswer unicode (normalizeSubmittedAnswer unicode s) =
        normalizeSubmittedAnswer unicode s ∧
      InWords unicode (normalizeSubmittedAnswer unicode s) ∧
      normalizeSubmittedAnswer unicode (String.ofList (u ++ a :: v)) =
        normalizeSubmittedAnswer unicode (String.ofList (u ++ v))) ↔ a ≠ '\u02BC' := by
  rw [normalized_insert standard]
  constructor
  · rintro ⟨-, -, hinsert⟩ rfl
    have hlowered : lowered unicode '\u02BC' = '\u02BC' := by
      rw [lowered, apostrophes.modifier, if_neg (by decide)]
    refine letters_insert_letter standard ?_ u v hinsert
    rw [hlowered, isWordChar, apostrophes.modifierLetter, Bool.true_or]
  · intro hne
    refine ⟨normalized_again standard apostrophes s, normalized_inWords standard s, ?_⟩
    refine letters_insert (fun state => ?_) u v
    have hkind : a = '\'' ∨ a = '\u2019' := by
      simpa [apostropheChars, hne] using ha
    rcases hkind with rfl | rfl
    · exact step_apostrophe apostrophes.typewriter (.inl rfl) state
    · exact step_apostrophe apostrophes.rightQuote (.inr rfl) state

/-- The letters of ASCII, and the apostrophe that is one. -/
def typographic : Unicode :=
  { latin with isLetter := fun c => latin.isLetter c || c = '\u02BC' }

theorem separates_typographic {c : Char} (h : Separates latin c) (hc : c ≠ '\u02BC') :
    Separates typographic c :=
  ⟨h.lower, by simp [typographic, h.letter, hc], h.number⟩

theorem standard_typographic : Standard typographic where
  space c h := separates_typographic (standard_latin.space c h) (by rintro rfl; revert h; decide)
  whiteSpace c h :=
    separates_typographic (standard_latin.whiteSpace c h) (by rintro rfl; revert h; decide)
  delimiter c h :=
    separates_typographic (standard_latin.delimiter c h) (by rintro rfl; revert h; decide)

theorem apostrophes_typographic : Apostrophes typographic where
  lowered c := by
    have hlower : ∀ d : Char, d.toLower.toLower = d.toLower := fun d =>
      JudgeAgreement.toLower_eq_self (by simp)
    change latin.toLower (latin.toLower c) = latin.toLower c
    by_cases hc : c = 'İ'
    · subst hc
      decide
    · have heq : latin.toLower c = c.toLower := if_neg hc
      rw [heq]
      have hd : c.toLower ≠ 'İ' := by
        intro hd
        by_cases hupper : c.isUpper = true
        · have halpha : c.toLower.isLower = true := by
            rw [Char.isLower_toLower_eq_isAlpha, Char.isAlpha, hupper, Bool.true_or]
          rw [hd] at halpha
          exact absurd halpha (by decide)
        · exact hc ((JudgeAgreement.toLower_eq_self (by simpa using hupper)).symm.trans hd)
      have heq' : latin.toLower c.toLower = c.toLower.toLower := if_neg hd
      rw [heq', hlower]
  ie := by decide
  typewriter := ⟨by decide, by decide, by decide⟩
  rightQuote := ⟨by decide, by decide, by decide⟩
  modifier := by decide
  modifierLetter := by decide

theorem normalized_dont :
    (normalizeSubmittedAnswer typographic (normalizeSubmittedAnswer typographic "DON'T") =
        normalizeSubmittedAnswer typographic "DON'T" ∧
      InWords typographic (normalizeSubmittedAnswer typographic "DON'T") ∧
      normalizeSubmittedAnswer typographic (String.ofList (['d', 'o', 'n'] ++ '\u2019' :: ['t'])) =
        normalizeSubmittedAnswer typographic (String.ofList (['d', 'o', 'n'] ++ ['t']))) ↔
      '\u2019' ≠ '\u02BC' :=
  normalized_iff standard_typographic apostrophes_typographic "DON'T" ['d', 'o', 'n'] ['t']
    (by decide)

/-- The apostrophe that the code means to pass over is a letter of its own. -/
theorem modifier_written : '\u02BC' ∈ apostropheChars ∧
    normalizeSubmittedAnswer typographic "don\u02BCt" = "don\u02BCt" ∧
    normalizeSubmittedAnswer typographic "dont" = "dont" := by
  refine ⟨by decide, ?_, ?_⟩ <;> decide +kernel

end Projection

end AnswerNormalForm
