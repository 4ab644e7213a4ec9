import LexiGo.Client.LearningItems
import LexiGo.Learning.AnswerCandidates

/-! The normal form of a text on the server and on the client. Both are the
letters and numbers of the text, lowered, with one space where anything else
stood between two of them. -/
namespace NormalForms
open ListParts GoText JsText AnswerJudgement AnswerCandidates
open LearningItems (lowerCharacter letterOrNumber isDelimiter normalizeAnswer)

/-- Neither a letter nor a number, and without a lower case of its own. -/
structure Separates (unicode : Unicode) (c : Char) : Prop where
  lower : unicode.toLower c = c
  letter : unicode.isLetter c = false
  number : unicode.isNumber c = false

/-- What the Unicode standard says of white space and of the delimiters. -/
structure Standard (unicode : Unicode) : Prop where
  space : ∀ c, isSpace c = true → Separates unicode c
  whiteSpace : ∀ c, isWhiteSpace c = true → Separates unicode c
  delimiter : ∀ c, isDelimiter c = true → Separates unicode c

/-- What the loop of the normaliser has written at the end of a text. -/
def letters (unicode : Unicode) (l : List Char) : List Char :=
  (l.foldl (normalizeStep unicode) ([], false)).1.reverse

/-- A character that ends a word and writes nothing. -/
def Blank (unicode : Unicode) (c : Char) : Prop :=
  ∀ written spacePending, normalizeStep unicode (written, spacePending) c =
    (written, !written.isEmpty)

variable {unicode : Unicode}

theorem Separates.blank {c : Char} (h : Separates unicode c) (hyo : c ≠ 'ё')
    (hapostrophe : c ≠ '\'' ∧ c ≠ '\u2019' ∧ c ≠ '\u02BC') : Blank unicode c := by
  intro written spacePending
  simp only [normalizeStep, h.lower, if_neg hyo, h.letter, h.number, Bool.or_self,
    Bool.false_eq_true, if_false]
  simp [hapostrophe]

section Blanks
variable (standard : Standard unicode) {c : Char}
include standard

theorem blank_of_space (h : isSpace c = true) : Blank unicode c := by
  refine (standard.space c h).blank ?_ ⟨?_, ?_, ?_⟩ <;>
    · rintro rfl
      revert h
      decide

theorem blank_of_whiteSpace (h : isWhiteSpace c = true) : Blank unicode c := by
  refine (standard.whiteSpace c h).blank ?_ ⟨?_, ?_, ?_⟩ <;>
    · rintro rfl
      revert h
      decide

theorem blank_of_delimiter (h : isDelimiter c = true) : Blank unicode c := by
  refine (standard.delimiter c h).blank ?_ ⟨?_, ?_, ?_⟩ <;>
    · rintro rfl
      revert h
      decide

end Blanks

theorem foldl_blanks {l : List Char} (h : ∀ c ∈ l, Blank unicode c) (written : List Char)
    (spacePending : Bool) :
    (l.foldl (normalizeStep unicode) (written, spacePending)).1 = written := by
  induction l generalizing spacePending with
  | nil => rfl
  | cons c l ih =>
    rw [List.foldl_cons, h c List.mem_cons_self]
    exact ih (fun d hd => h d (List.mem_cons_of_mem _ hd)) _

theorem foldl_leading {l : List Char} (h : ∀ c ∈ l, Blank unicode c) :
    l.foldl (normalizeStep unicode) ([], false) = ([], false) := by
  induction l with
  | nil => rfl
  | cons c l ih =>
    rw [List.foldl_cons, h c List.mem_cons_self]
    exact ih fun d hd => h d (List.mem_cons_of_mem _ hd)

/-- Blanks around a text leave its letters alone. -/
theorem letters_around {u v : List Char} (l : List Char) (hu : ∀ c ∈ u, Blank unicode c)
    (hv : ∀ c ∈ v, Blank unicode c) : letters unicode (u ++ l ++ v) = letters unicode l := by
  unfold letters
  rw [List.foldl_append, List.foldl_append, foldl_leading hu, foldl_blanks hv]

theorem letters_blanks {l : List Char} (h : ∀ c ∈ l, Blank unicode c) :
    letters unicode l = [] := by
  unfold letters
  rw [foldl_blanks h, List.reverse_nil]

/-- A text that starts and ends with a letter or a number, unless it is empty. -/
structure Framed (unicode : Unicode) (l : List Char) : Prop where
  head : ∀ c ∈ l.head?, (unicode.isLetter c || unicode.isNumber c) = true
  last : ∀ c ∈ l.getLast?, (unicode.isLetter c || unicode.isNumber c) = true

theorem Framed.cons {l : List Char} {c : Char} (h : Framed unicode l)
    (hc : (unicode.isLetter c || unicode.isNumber c) = true) (spacePending : Bool) :
    Framed unicode (c :: (if spacePending && !l.isEmpty then ' ' :: l else l)) := by
  refine ⟨fun d hd => ?_, fun d hd => ?_⟩
  · rw [List.head?_cons, Option.mem_some_iff] at hd
    exact hd ▸ hc
  · cases l with
    | nil =>
      rw [List.isEmpty_nil, Bool.not_true, Bool.and_false, if_neg Bool.false_ne_true,
        List.getLast?_singleton, Option.mem_some_iff] at hd
      exact hd ▸ hc
    | cons e l =>
      refine h.last d ?_
      cases spacePending <;> simpa [List.getLast?_cons] using hd

theorem framed_step {written : List Char} {spacePending : Bool} (h : Framed unicode written)
    (c : Char) : Framed unicode (normalizeStep unicode (written, spacePending) c).1 := by
  unfold normalizeStep
  dsimp only
  generalize (if unicode.toLower c = 'ё' then 'е' else unicode.toLower c) = d
  by_cases hletter : (unicode.isLetter d || unicode.isNumber d) = true
  · rw [if_pos hletter]
    exact h.cons hletter spacePending
  · rw [if_neg hletter]
    split <;> exact h

theorem framed_foldl {l : List Char} {state : List Char × Bool} (h : Framed unicode state.1) :
    Framed unicode (l.foldl (normalizeStep unicode) state).1 := by
  induction l generalizing state with
  | nil => exact h
  | cons c l ih => exact ih (framed_step h c)

theorem framed_letters (l : List Char) : Framed unicode (letters unicode l) := by
  have h : Framed unicode (l.foldl (normalizeStep unicode) ([], false)).1 :=
    framed_foldl ⟨by simp, by simp⟩
  exact ⟨fun c hc => h.last c (by simpa [letters] using hc),
    fun c hc => h.head c (by simpa [letters] using hc)⟩

/-- White space of either kind is trimmed off no normal form. -/
theorem strip_letters {p : Char → Bool} (hp : ∀ c, p c = true → Separates unicode c)
    (l : List Char) :
    ((letters unicode l).dropWhile p).rdropWhile p = letters unicode l := by
  have hedge : ∀ c, (unicode.isLetter c || unicode.isNumber c) = true → p c = false := by
    intro c hc
    by_contra h
    have hs := hp c (by simpa using h)
    simp [hs.letter, hs.number] at hc
  exact strip_eq_self p (fun c hc => hedge c ((framed_letters l).head c hc))
    fun c hc => hedge c ((framed_letters l).last c hc)

section Server
variable (standard : Standard unicode)
include standard

theorem letters_trimSpace (s : String) :
    letters unicode (trimSpace s).toList = letters unicode s.toList := by
  obtain ⟨u, v, heq, hu, hv⟩ := around_strip isSpace s.toList
  rw [trimSpace, String.toList_ofList]
  conv_rhs => rw [heq]
  exact (letters_around _ (fun c hc => blank_of_space standard (hu c hc))
    fun c hc => blank_of_space standard (hv c hc)).symm

theorem normalizeSubmittedAnswer_eq (s : String) :
    normalizeSubmittedAnswer unicode s = String.ofList (letters unicode s.toList) := by
  rw [← letters_trimSpace standard]
  have hform : normalizeSubmittedAnswer unicode s =
      trimSpace (String.ofList (letters unicode (trimSpace s).toList)) := rfl
  rw [hform, trimSpace, String.toList_ofList, strip_letters standard.space]

/-- A text of white space and delimiters has no normal form. -/
theorem normalizeSubmittedAnswer_blanks {s : String} (h : ∀ c ∈ s.toList, Blank unicode c) :
    normalizeSubmittedAnswer unicode s = "" := by
  rw [normalizeSubmittedAnswer_eq standard, letters_blanks h, String.ofList_nil]

end Server

section Client
variable {lower : String → String}

/-- The two run-times lower the character alike, to one character. -/
def LoweredAlike (unicode : Unicode) (lower : String → String) (c : Char) : Prop :=
  lower (String.singleton c) = String.singleton (unicode.toLower c)

instance (c : Char) : Decidable (LoweredAlike unicode lower c) :=
  inferInstanceAs (Decidable (_ = _))

theorem lowerCharacter_eq {c : Char} (h : LoweredAlike unicode lower c) :
    lowerCharacter lower c =
      String.singleton (if unicode.toLower c = 'ё' then 'е' else unicode.toLower c) := by
  have hyo : "ё" = String.singleton 'ё' := rfl
  unfold lowerCharacter
  dsimp only
  rw [h, hyo]
  by_cases heq : unicode.toLower c = 'ё'
  · rw [heq, if_pos rfl, if_pos rfl]
    rfl
  · rw [if_neg heq, if_neg fun h' => heq (String.singleton_inj.1 h')]

theorem letterOrNumber_singleton (d : Char) :
    letterOrNumber unicode (String.singleton d) = (unicode.isLetter d || unicode.isNumber d) := by
  simp [letterOrNumber]

theorem ofList_eq_empty {l : List Char} : String.ofList l = "" ↔ l = [] := by
  rw [← String.toList_inj, String.toList_ofList, String.toList_empty]

theorem ofList_reverse_cons (c : Char) (l : List Char) :
    String.ofList (c :: l).reverse = String.ofList l.reverse ++ String.singleton c := by
  rw [← String.toList_inj]
  simp

theorem step_alike {c : Char} (h : LoweredAlike unicode lower c) (written : List Char)
    (spacePending : Bool) :
    LearningItems.normalizeStep unicode lower (String.ofList written.reverse, spacePending) c =
      (String.ofList (normalizeStep unicode (written, spacePending) c).1.reverse,
        (normalizeStep unicode (written, spacePending) c).2) := by
  have hquote : "'" = String.singleton '\'' := rfl
  have hright : "\u2019" = String.singleton '\u2019' := rfl
  have hmodifier : "\u02BC" = String.singleton '\u02BC' := rfl
  have hempty : (String.ofList written.reverse = "") = (written = []) := by
    rw [ofList_eq_empty, List.reverse_eq_nil_iff]
  unfold LearningItems.normalizeStep normalizeStep
  dsimp only
  rw [lowerCharacter_eq h]
  generalize (if unicode.toLower c = 'ё' then 'е' else unicode.toLower c) = d
  rw [letterOrNumber_singleton, hquote, hright, hmodifier]
  simp only [String.singleton_inj, ne_eq, hempty]
  by_cases hletter : (unicode.isLetter d || unicode.isNumber d) = true
  · rw [if_pos hletter, if_pos hletter]
    cases spacePending with
    | false => simp
    | true =>
      have hspace : " " = String.singleton ' ' := rfl
      cases written with
      | nil => simp
      | cons e written =>
        rw [if_pos (by simp)]
        dsimp only
        rw [if_pos (by simp), ofList_reverse_cons d, ofList_reverse_cons ' ', hspace]
  · rw [if_neg hletter, if_neg hletter]
    cases written <;> split <;> rfl

theorem foldl_alike {l : List Char} (h : ∀ c ∈ l, LoweredAlike unicode lower c)
    (written : List Char) (spacePending : Bool) :
    (l.foldl (LearningItems.normalizeStep unicode lower)
        (String.ofList written.reverse, spacePending)).1 =
      String.ofList (l.foldl (normalizeStep unicode) (written, spacePending)).1.reverse := by
  induction l generalizing written spacePending with
  | nil => rfl
  | cons c l ih =>
    rw [List.foldl_cons, List.foldl_cons, step_alike (h c List.mem_cons_self)]
    exact ih (fun d hd => h d (List.mem_cons_of_mem _ hd)) _ _

/-- Texts whose characters are lowered alike have one normal form. -/
theorem normalizeAnswer_eq (standard : Standard unicode) {s : String}
    (h : ∀ c ∈ s.toList, LoweredAlike unicode lower c) :
    normalizeAnswer unicode lower s = normalizeSubmittedAnswer unicode s := by
  obtain ⟨u, v, heq, hu, hv⟩ := around_strip isWhiteSpace s.toList
  have hinner : ∀ c ∈ (trim s).toList, LoweredAlike unicode lower c := by
    intro c hc
    rw [trim, String.toList_ofList] at hc
    exact h c (mem_strip isWhiteSpace hc)
  have hletters : letters unicode (trim s).toList = letters unicode s.toList := by
    rw [trim, String.toList_ofList]
    conv_rhs => rw [heq]
    exact (letters_around _ (fun c hc => blank_of_whiteSpace standard (hu c hc))
      fun c hc => blank_of_whiteSpace standard (hv c hc)).symm
  have hform : normalizeAnswer unicode lower s =
      trim ((trim s).toList.foldl (LearningItems.normalizeStep unicode lower)
        (String.ofList ([] : List Char).reverse, false)).1 := rfl
  have hwritten : ((trim s).toList.foldl (normalizeStep unicode) ([], false)).1.reverse =
      letters unicode (trim s).toList := rfl
  rw [hform, foldl_alike hinner, hwritten, hletters, normalizeSubmittedAnswer_eq standard, trim,
    String.toList_ofList, strip_letters standard.whiteSpace]

end Client

end NormalForms
