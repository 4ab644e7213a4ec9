import LexiGo.Client.NormalForms
import Mathlib

/-! The judge of the client against the judge of the server, on the rows that the
constraints of `words` let in. The two trim, lower and compare by rules of their
own run-times, and fill an open blank in ways of their own; where those coincide
for the texts at hand, so do the judgements. -/
namespace JudgeAgreement
open ListParts GoText JsText AnswerJudgement AnswerCandidates NormalForms
open LearningItems (LearningItem AnswerJudgementReason judgeLearningAnswer acceptedAnswersForItem
  exerciseAnswer inferClozeAnswer isDelimiter matchAnswer normalizeAnswer orElse primaryCandidates
  unseen)

/-- A row of `words`, under `words_kind_chk` and `words_phrase_shape_chk`. -/
structure TaughtRow extends AnswerDefinition where
  slug : Option String
  headword : String
  cloze : String
  shape : kind = .word ∨
    ((∃ s, slug = some s ∧ s ≠ "") ∧ cloze ≠ "" ∧ clozeAnswer ≠ "")

/-- The item that the client makes of a row; an empty column may be left out. -/
structure Carries (item : LearningItem) (row : TaughtRow) : Prop where
  kind : item.kind = row.kind
  prompt : item.prompt = row.headword
  answer : item.answer = row.translation
  acceptedAnswers : item.acceptedAnswers.getD [] = row.acceptedAnswers
  cloze : item.cloze.getD "" = row.cloze
  clozeAnswer : item.clozeAnswer.getD "" = row.clozeAnswer

/-- The reason of the server's that has the same text. -/
def stored : AnswerJudgementReason → JudgementReason
  | .acceptedExact => .acceptedExact
  | .acceptedNormalized => .acceptedNormalized
  | .rejectedNoAnswer => .rejectedNoAnswer
  | .rejectedNoMatch => .rejectedNoMatch

/-- The same verdict for the same reason. -/
def Agree (client : LearningItems.AnswerJudgement) (server : Bool × JudgementReason × String) :
    Prop :=
  client.correct = server.1 ∧ stored client.reason = server.2.1

instance (client : LearningItems.AnswerJudgement) (server : Bool × JudgementReason × String) :
    Decidable (Agree client server) :=
  inferInstanceAs (Decidable (_ ∧ _))

section Alike
variable (unicode : Unicode) (lower : String → String)

/-- Both run-times trim the text alike and lower its characters alike. -/
structure Alike (x : String) : Prop where
  trimmed : trim x = trimSpace x
  lowered : ∀ c ∈ x.toList, LoweredAlike unicode lower c

/-- Every candidate that the server compares with an answer is the same text to it
under folding exactly if it is under lowering. -/
def ComparedAlike (submitted : String) : List String → Prop
  | [] => True
  | candidate :: rest =>
    unicode.equalFold (trimSpace submitted) (trimSpace candidate) =
        decide (lower (trimSpace submitted) = lower (trimSpace candidate)) ∧
      (matched unicode submitted candidate = false → ComparedAlike submitted rest)

instance decidableComparedAlike (submitted : String) :
    (candidates : List String) → Decidable (ComparedAlike unicode lower submitted candidates)
  | [] => isTrue trivial
  | _ :: rest =>
    have := decidableComparedAlike submitted rest
    inferInstanceAs (Decidable (_ ∧ (_ → _)))

/-- A translation, with the parts that its delimiters leave. -/
structure TranslationAlike (translation : String) : Prop where
  whole : Alike unicode lower translation
  parts : ∀ part ∈ split isDelimiter (trimSpace translation), trim part = trimSpace part

/-- A cloze answer; if it is blank, the whole translation is what both expect. -/
structure ClozeAlike (row : TaughtRow) : Prop where
  filled : Alike unicode lower row.clozeAnswer
  translation : trimSpace row.clozeAnswer = "" → Alike unicode lower row.translation
  single : trimSpace row.clozeAnswer = "" →
    (canonicalTranslationCandidates row.translation).length ≤ 1
  inferred : trimSpace row.clozeAnswer = "" →
    inferClozeAnswer row.headword (some row.cloze) = "" ∨
      inferClozeAnswer row.headword (some row.cloze) = trimSpace row.translation

/-- The condition under which the two judges are at one about an answer. -/
structure AskedAlike (row : TaughtRow) (submitted : String) : Prop where
  answer : Alike unicode lower submitted
  word : row.kind = .word → TranslationAlike unicode lower row.translation
  phrase : row.kind = .phrase → ClozeAlike unicode lower row
  curated : ∀ answer ∈ row.acceptedAnswers, Alike unicode lower answer
  compared : ComparedAlike unicode lower submitted
    (acceptedAnswerCandidates unicode row.toAnswerDefinition)

/-- A candidate of the client and the one of the server that it stands for. -/
structure Paired (c d : String) : Prop where
  trimmed : trim c = trimSpace d
  normal : normalizeAnswer unicode lower c = normalizeSubmittedAnswer unicode d

end Alike

variable {unicode : Unicode} {lower : String → String}

theorem alike_of_all {x : String} (htrim : trim x = trimSpace x)
    (h : (x.toList.all fun c => LoweredAlike unicode lower c) = true) : Alike unicode lower x :=
  ⟨htrim, fun c hc => of_decide_eq_true (List.all_eq_true.1 h c hc)⟩

theorem Alike.paired (standard : Standard unicode) {x : String} (h : Alike unicode lower x) :
    Paired unicode lower x x :=
  ⟨h.trimmed, normalizeAnswer_eq standard h.lowered⟩

theorem unseen_paired {seen cs ds : List String} (h : List.Forall₂ (Paired unicode lower) cs ds) :
    List.Forall₂ (Paired unicode lower) (unseen unicode lower seen cs)
      (distinctCandidates unicode seen ds) := by
  induction h generalizing seen with
  | nil => exact .nil
  | @cons c d cs ds hcd _ ih =>
    unfold unseen distinctCandidates
    dsimp only
    rw [normalizeSubmittedAnswer_trimSpace, hcd.normal]
    simp only [Bool.or_eq_true, decide_eq_true_eq]
    by_cases hskip : normalizeSubmittedAnswer unicode d = "" ∨
        normalizeSubmittedAnswer unicode d ∈ seen
    · rw [if_pos hskip, if_pos hskip]
      exact ih
    · rw [if_neg hskip, if_neg hskip]
      refine .cons ⟨?_, ?_⟩ ih
      · rw [trimSpace_trimSpace, hcd.trimmed]
      · rw [normalizeSubmittedAnswer_trimSpace, hcd.normal]

theorem match_agree {submitted : String} {cs ds : List String}
    (hs : Paired unicode lower submitted submitted)
    (h : List.Forall₂ (Paired unicode lower) cs ds)
    (hcompared : ComparedAlike unicode lower submitted ds) :
    Agree (matchAnswer unicode lower (trim submitted) (normalizeAnswer unicode lower submitted) cs)
      (matchCandidate unicode (trimSpace submitted) (normalizeSubmittedAnswer unicode submitted)
        ds) := by
  induction h with
  | nil => exact ⟨rfl, rfl⟩
  | @cons c d cs ds hcd _ ih =>
    obtain ⟨hfold, hrest⟩ := hcompared
    unfold matchAnswer matchCandidate
    rw [hfold, hs.trimmed, hs.normal, hcd.trimmed, hcd.normal]
    simp only [decide_eq_true_eq]
    by_cases hexact : lower (trimSpace submitted) = lower (trimSpace d)
    · rw [if_pos hexact, if_pos hexact]
      exact ⟨rfl, rfl⟩
    · rw [if_neg hexact, if_neg hexact]
      by_cases hnormal : normalizeSubmittedAnswer unicode submitted =
          normalizeSubmittedAnswer unicode d
      · rw [if_pos hnormal, if_pos hnormal]
        exact ⟨rfl, rfl⟩
      · rw [if_neg hnormal, if_neg hnormal]
        have hunmatched : matched unicode submitted d = false := by
          simp [matched, hfold, hexact, hnormal]
        have hnext := ih (hrest hunmatched)
        rw [hs.trimmed, hs.normal] at hnext
        exact hnext

/-- A candidate with the normal form of the first one is never kept. -/
theorem distinct_repeated {t a : String} {rest : List String}
    (h : normalizeSubmittedAnswer unicode a = normalizeSubmittedAnswer unicode t) :
    distinctCandidates unicode [] (t :: a :: rest) = distinctCandidates unicode [] (t :: rest) := by
  simp only [distinctCandidates, normalizeSubmittedAnswer_trimSpace, h]
  by_cases hempty : normalizeSubmittedAnswer unicode t = ""
  · simp [hempty]
  · simp [hempty]

theorem trimSpace_eq_empty {s : String} (h : trimSpace s = "") :
    ∀ c ∈ s.toList, isSpace c = true := by
  rw [trimSpace, ofList_eq_empty] at h
  exact strip_eq_nil isSpace h

theorem mem_trimSpace {s : String} {c : Char} (h : c ∈ (trimSpace s).toList) : c ∈ s.toList := by
  rw [trimSpace, String.toList_ofList] at h
  exact mem_strip isSpace h

/-- Trimming twice, in either way, is trimming once where the two ways agree. -/
theorem Alike.trimmed_paired (standard : Standard unicode) {x : String}
    (htrim : trim x = trimSpace x) (h : ∀ c ∈ x.toList, LoweredAlike unicode lower c) :
    Paired unicode lower (trimSpace x) (trimSpace x) := by
  refine ⟨?_, normalizeAnswer_eq standard fun c hc => h c (mem_trimSpace hc)⟩
  rw [← htrim, trim_trim, htrim, trimSpace_trimSpace]

section Alternatives
variable {x : String}

/-- The parts that a translation falls into, trimmed, without those left empty. -/
def alternatives (t : String) : List String :=
  ((split isDelimiter t).map trimSpace).filter (· ≠ "")

theorem client_alternatives {t : String}
    (h : ∀ part ∈ split isDelimiter t, trim part = trimSpace part) :
    ((split isDelimiter t).map trim).filter (· ≠ "") = alternatives t := by
  unfold alternatives
  rw [List.map_congr_left h]

theorem server_alternatives (t : String) :
    ((fieldsFunc isDelimiter t).map trimSpace).filter (fun s => s ≠ "") = alternatives t := by
  unfold alternatives fieldsFunc split
  generalize t.toList.splitOnP isDelimiter = parts
  induction parts with
  | nil => rfl
  | cons part parts ih =>
    cases part with
    | nil =>
      have hblank : trimSpace (String.ofList []) = "" := by decide
      simpa [hblank] using ih
    | cons c part =>
      simp only [List.filter_cons, List.isEmpty_cons, Bool.not_false, if_true, List.map_cons]
      rw [ih]

theorem alternatives_length (t : String) :
    (alternatives t).length ≤ (fieldsFunc isDelimiter t).length := by
  rw [← server_alternatives]
  exact (List.length_filter_le _ _).trans (List.length_map _).le

/-- The only alternative of a text has the normal form of the whole. -/
theorem single_alternative (standard : Standard unicode) {t a : String}
    (h : alternatives t = [a]) :
    normalizeSubmittedAnswer unicode a = normalizeSubmittedAnswer unicode t := by
  unfold alternatives split at h
  rw [List.map_map, List.filter_map, List.map_eq_singleton_iff] at h
  obtain ⟨part, hparts, rfl⟩ := h
  obtain ⟨before, after, hsplit, hbefore, -, hafter⟩ := List.filter_eq_cons_iff.1 hparts
  obtain ⟨u, v, hwhole, hu, hv⟩ := around_part hsplit
  have hrest : ∀ q : List Char, trimSpace (String.ofList q) = "" →
      ∀ c ∈ q, Blank unicode c := fun q hq c hc =>
    blank_of_space standard (trimSpace_eq_empty hq c (by rwa [String.toList_ofList]))
  have hblank : ∀ (parts : List (List Char)),
      (∀ q ∈ parts, trimSpace (String.ofList q) = "") →
      ∀ c, (isDelimiter c = true ∨ ∃ q ∈ parts, c ∈ q) → Blank unicode c := by
    rintro parts hparts c (hc | ⟨q, hq, hc⟩)
    · exact blank_of_delimiter standard hc
    · exact hrest q (hparts q hq) c hc
  dsimp only [Function.comp]
  rw [normalizeSubmittedAnswer_trimSpace, normalizeSubmittedAnswer_eq standard,
    normalizeSubmittedAnswer_eq standard, hwhole, String.toList_ofList, letters_around part]
  · exact fun c hc => hblank before (by simpa using hbefore) c (hu c hc)
  · exact fun c hc => hblank after (by simpa using hafter) c (hv c hc)

theorem alternatives_paired (standard : Standard unicode)
    (h : TranslationAlike unicode lower x) :
    List.Forall₂ (Paired unicode lower) (alternatives (trimSpace x))
      (alternatives (trimSpace x)) := by
  rw [List.forall₂_same]
  intro a ha
  obtain ⟨hmem, -⟩ := List.mem_filter.1 ha
  obtain ⟨part, hpart, rfl⟩ := List.mem_map.1 hmem
  refine Alike.trimmed_paired standard (h.parts part hpart) fun c hc => ?_
  obtain ⟨cs, hcs, rfl⟩ := List.mem_map.1 hpart
  rw [String.toList_ofList] at hc
  exact h.whole.lowered c (mem_trimSpace (mem_of_part hcs hc))

theorem server_canonical (x : String) : canonicalTranslationCandidates x =
    if trimSpace x = "" then []
    else if (fieldsFunc isDelimiter (trimSpace x)).length ≤ 1 then [trimSpace x]
    else trimSpace x :: alternatives (trimSpace x) := by
  rw [← server_alternatives]
  rfl

/-- A translation without alternatives is a candidate as a whole, unless it is empty. -/
theorem single_canonical (h : (canonicalTranslationCandidates x).length ≤ 1)
    (rest : List String) : distinctCandidates unicode [] ([trimSpace x] ++ rest) =
      distinctCandidates unicode [] (canonicalTranslationCandidates x ++ rest) := by
  have hempty : normalizeSubmittedAnswer unicode "" = "" :=
    normalizeSubmittedAnswer_of_blank (by decide)
  rw [server_canonical] at h ⊢
  by_cases hblank : trimSpace x = ""
  · rw [if_pos hblank, hblank]
    simp [distinctCandidates, normalizeSubmittedAnswer_trimSpace, hempty]
  rw [if_neg hblank] at h ⊢
  by_cases hparts : (fieldsFunc isDelimiter (trimSpace x)).length ≤ 1
  · rw [if_pos hparts]
  · rw [if_neg hparts] at h ⊢
    have hnone : alternatives (trimSpace x) = [] := by
      rw [List.length_cons] at h
      exact List.length_eq_zero_iff.1 (by omega)
    rw [hnone]

theorem client_canonical {t : String} (htrim : trim t = t)
    (h : ∀ part ∈ split isDelimiter t, trim part = trimSpace part) :
    LearningItems.canonicalTranslationCandidates t =
      if t = "" then []
      else if 1 < (alternatives t).length then t :: alternatives t else [t] := by
  unfold LearningItems.canonicalTranslationCandidates
  dsimp only
  rw [htrim, client_alternatives h]

/-- The candidates that the two make of a translation, up to one that is dropped as
a repetition. -/
theorem translation_paired (standard : Standard unicode) (h : TranslationAlike unicode lower x) :
    ∃ ds, List.Forall₂ (Paired unicode lower)
        (LearningItems.canonicalTranslationCandidates (trimSpace x)) ds ∧
      ∀ rest, distinctCandidates unicode [] (canonicalTranslationCandidates x ++ rest) =
        distinctCandidates unicode [] (ds ++ rest) := by
  have hwhole := Alike.trimmed_paired standard h.whole.trimmed h.whole.lowered
  have htrim : trim (trimSpace x) = trimSpace x := by
    rw [← h.whole.trimmed, trim_trim]
  rw [client_canonical htrim h.parts, server_canonical]
  by_cases hempty : trimSpace x = ""
  · rw [if_pos hempty, if_pos hempty]
    exact ⟨[], .nil, fun _ => rfl⟩
  rw [if_neg hempty, if_neg hempty]
  have hlength := alternatives_length (trimSpace x)
  have hpaired := alternatives_paired standard h
  by_cases hclient : 1 < (alternatives (trimSpace x)).length
  · rw [if_pos hclient, if_neg (by omega)]
    exact ⟨_, .cons hwhole hpaired, fun _ => rfl⟩
  rw [if_neg hclient]
  refine ⟨[trimSpace x], .cons hwhole .nil, fun rest => ?_⟩
  split
  · rfl
  · -- the server also offers the only alternative, if there is one
    cases halternatives : alternatives (trimSpace x) with
    | nil => rfl
    | cons a more =>
      have hmore : more = [] := by
        rw [halternatives, List.length_cons] at hclient
        exact List.length_eq_zero_iff.1 (by omega)
      subst hmore
      exact distinct_repeated (single_alternative standard halternatives)

end Alternatives

section Items
variable {item : LearningItem} {row : TaughtRow} (carries : Carries item row)
include carries

theorem exercise_word (h : row.kind = .word) : exerciseAnswer item = trim row.translation := by
  unfold exerciseAnswer
  rw [carries.kind, h, carries.answer]
  rfl

theorem exercise_phrase (h : row.kind = .phrase) :
    exerciseAnswer item = orElse (trim row.clozeAnswer)
      (orElse (inferClozeAnswer row.headword (some row.cloze)) (trim row.translation)) := by
  have hcloze : row.cloze ≠ "" := by
    rcases row.shape with hword | ⟨-, hcloze, -⟩
    · rw [h] at hword
      cases hword
    · exact hcloze
  have hitem : item.cloze = some row.cloze := by
    have hc := carries.cloze
    cases hi : item.cloze with
    | none => exact absurd (by simpa [hi] using hc.symm) hcloze
    | some cloze => simpa [hi] using hc
  have hanswer : item.clozeAnswer.elim "" trim = trim row.clozeAnswer := by
    rw [← carries.clozeAnswer]
    cases item.clozeAnswer with
    | none => decide
    | some clozeAnswer => rfl
  unfold exerciseAnswer
  rw [carries.kind, h, hitem, hanswer, carries.prompt, carries.answer, if_pos (by simp [hcloze])]

/-- What the two put before the curated answers. -/
theorem primary_paired (standard : Standard unicode)
    (hword : row.kind = .word → TranslationAlike unicode lower row.translation)
    (hphrase : row.kind = .phrase → ClozeAlike unicode lower row) :
    ∃ ds, List.Forall₂ (Paired unicode lower) (primaryCandidates item) ds ∧
      acceptedAnswerCandidates unicode row.toAnswerDefinition =
        distinctCandidates unicode [] (ds ++ row.acceptedAnswers) := by
  unfold primaryCandidates acceptedAnswerCandidates
  dsimp only
  rw [carries.kind]
  cases hkind : row.kind with
  | word =>
    obtain ⟨ds, hpaired, hsame⟩ := translation_paired standard (hword hkind)
    refine ⟨ds, ?_, ?_⟩
    · rw [if_pos rfl, exercise_word carries hkind, (hword hkind).whole.trimmed]
      exact hpaired
    · rw [if_neg (by simp), hsame]
  | phrase =>
    have h := hphrase hkind
    rw [if_neg (by simp), exercise_phrase carries hkind, h.filled.trimmed]
    by_cases hblank : trimSpace row.clozeAnswer = ""
    · have hwhole := h.translation hblank
      have hanswer : orElse (trimSpace row.clozeAnswer)
          (orElse (inferClozeAnswer row.headword (some row.cloze)) (trim row.translation)) =
          trimSpace row.translation := by
        rw [hblank, orElse, if_pos rfl, hwhole.trimmed]
        rcases h.inferred hblank with hi | hi
        · rw [hi, orElse, if_pos rfl]
        · rw [hi, orElse, ite_self]
      rw [hanswer, if_neg (by simp [hblank])]
      refine ⟨_, .cons (Alike.trimmed_paired standard hwhole.trimmed hwhole.lowered) .nil, ?_⟩
      exact (single_canonical (h.single hblank) _).symm
    · have hfilled : orElse (trimSpace row.clozeAnswer)
          (orElse (inferClozeAnswer row.headword (some row.cloze)) (trim row.translation)) =
          trimSpace row.clozeAnswer := by
        rw [orElse, if_neg hblank]
      have hpaired := Alike.trimmed_paired standard h.filled.trimmed h.filled.lowered
      rw [hfilled, if_pos (by simp [hblank])]
      refine ⟨_, .cons ⟨?_, ?_⟩ .nil, rfl⟩
      · rw [hpaired.trimmed, trimSpace_trimSpace]
      · rw [hpaired.normal, normalizeSubmittedAnswer_trimSpace]

end Items

section Latin

/-- The letters of ASCII and two more, lowered and folded as the standard has them. -/
def latin : Unicode where
  isLetter c := c.isAlpha || c = 'İ' || c = 'ſ'
  isNumber := Char.isDigit
  toLower c := if c = 'İ' then 'i' else c.toLower
  simpleFold c := if c = 'ſ' then 's' else c.toLower

/-- Lowering a whole text gives the dotted capital its dot as a character of its own. -/
def latinLower (s : String) : String :=
  String.ofList (s.toList.flatMap fun c => if c = 'İ' then ['i', '\u0307'] else [c.toLower])

theorem toLower_eq_self {c : Char} (h : c.isUpper = false) : c.toLower = c := by
  unfold Char.toLower
  rw [dif_neg]
  intro hupper
  rw [Char.isUpper, decide_eq_false_iff_not] at h
  exact h hupper

theorem separates_latin {c : Char}
    (h : c.toNat < 48 ∨ 57 < c.toNat ∧ c.toNat < 65 ∨ 122 < c.toNat)
    (hspecial : c ≠ 'İ' ∧ c ≠ 'ſ') : Separates latin c := by
  have hupper : c.isUpper = false := by
    simp [Char.isUpper, UInt32.le_iff_toNat_le]
    omega
  have hlower : c.isLower = false := by
    simp [Char.isLower, UInt32.le_iff_toNat_le]
    omega
  have hdigit : c.isDigit = false := by
    simp [Char.isDigit, UInt32.le_iff_toNat_le]
    omega
  refine ⟨?_, ?_, hdigit⟩
  · simp [latin, hspecial, toLower_eq_self hupper]
  · simp [latin, hspecial, Char.isAlpha, hupper, hlower]

theorem not_special {p : Char → Bool} {c : Char} (h : p c = true)
    (hp : p 'İ' = false ∧ p 'ſ' = false) : c ≠ 'İ' ∧ c ≠ 'ſ' := by
  refine ⟨?_, ?_⟩
  · rintro rfl
    rw [hp.1] at h
    cases h
  · rintro rfl
    rw [hp.2] at h
    cases h

theorem standard_latin : Standard latin where
  space c h := by
    refine separates_latin ?_ (not_special h (by decide))
    simp [isSpace, Char.le_def, UInt32.le_iff_toNat_le, ← Char.toNat_inj] at h
    omega
  whiteSpace c h := by
    refine separates_latin ?_ (not_special h (by decide))
    simp [isWhiteSpace, Char.le_def, UInt32.le_iff_toNat_le, ← Char.toNat_inj] at h
    omega
  delimiter c h := by
    refine separates_latin ?_ (not_special h (by decide))
    simp [isDelimiter, ← Char.toNat_inj] at h
    omega

end Latin

section Instances

/-- The item with every field of its row. -/
def itemOf (row : TaughtRow) : LearningItem where
  kind := row.kind
  prompt := row.headword
  answer := row.translation
  acceptedAnswers := some row.acceptedAnswers
  cloze := some row.cloze
  clozeAnswer := some row.clozeAnswer

theorem itemOf_carries (row : TaughtRow) : Carries (itemOf row) row :=
  ⟨rfl, rfl, rfl, rfl, rfl, rfl⟩

def taughtWord (headword translation : String) : TaughtRow where
  kind := .word
  translation := translation
  clozeAnswer := ""
  acceptedAnswers := []
  slug := none
  headword := headword
  cloze := ""
  shape := .inl rfl

/-- The constraint asks for a cloze answer that is not empty, and a space is not. -/
def openBlank : TaughtRow where
  kind := .phrase
  translation := "stay connected"
  clozeAnswer := " "
  acceptedAnswers := []
  slug := some "hold-the-line"
  headword := "hold the line"
  cloze := "hold the _____"
  shape := .inr ⟨⟨_, rfl, by decide⟩, by decide, by decide⟩

end Instances

end JudgeAgreement
