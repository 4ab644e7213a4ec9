import LexiGo.Learning.LessonSelection

/-! A mixed lesson, tier by tier: within a tier of one priority words and phrases come
in turn for as long as there are both, and the turn is kept from one tier to the next. -/
namespace LessonTiers
open AnswerJudgement LearningSchema LessonComposer LessonSelection
open scoped List

variable {words phrases : List LessonCandidate}

/-- All of a tier. -/
def alternateAll (words phrases : List LessonCandidate) (next : WordKind) : List LessonCandidate :=
  alternateLessonKinds (words.length + phrases.length) words phrases next

theorem alternateLessonKinds_nil (limit : Nat) (next : WordKind) :
    alternateLessonKinds limit [] [] next = [] := by
  cases limit <;> simp [alternateLessonKinds]

/-- A smaller limit cuts the same sequence short. -/
theorem take_alternateLessonKinds (limit room : Nat) (words phrases : List LessonCandidate)
    (next : WordKind) (h : limit ≤ room) :
    (alternateLessonKinds room words phrases next).take limit =
      alternateLessonKinds limit words phrases next := by
  induction limit generalizing room words phrases next with
  | zero => simp [alternateLessonKinds]
  | succ limit ih =>
    obtain ⟨room, rfl⟩ : ∃ r, room = r + 1 := ⟨room - 1, by omega⟩
    have hroom : limit ≤ room := by omega
    cases words with
    | nil =>
      cases phrases with
      | nil => simp [alternateLessonKinds]
      | cons phrase phrases => cases next <;> simp [alternateLessonKinds, ih _ _ _ _ hroom]
    | cons word words =>
      cases next with
      | word => simp [alternateLessonKinds, ih _ _ _ _ hroom]
      | phrase => cases phrases <;> simp [alternateLessonKinds, ih _ _ _ _ hroom]

theorem alternateLessonKinds_of_le {limit : Nat} {next : WordKind}
    (h : words.length + phrases.length ≤ limit) :
    alternateLessonKinds limit words phrases next = alternateAll words phrases next := by
  unfold alternateAll
  rw [← take_alternateLessonKinds _ limit words phrases next h]
  refine (List.take_of_length_le ?_).symm
  rw [(alternateLessonKinds_perm limit words phrases next h).length_eq, List.length_append]

theorem alternateLessonKinds_eq_take (limit : Nat) (words phrases : List LessonCandidate)
    (next : WordKind) :
    alternateLessonKinds limit words phrases next = (alternateAll words phrases next).take limit := by
  by_cases h : words.length + phrases.length ≤ limit
  · rw [alternateLessonKinds_of_le h, List.take_of_length_le]
    rw [alternateAll, (alternateLessonKinds_perm _ words phrases next le_rfl).length_eq,
      List.length_append]
    exact h
  · exact (take_alternateLessonKinds _ _ _ _ _ (by omega)).symm

/-- The tiers of priority below `n`, without a limit. -/
def tiers (words phrases : List LessonCandidate) : Nat → List LessonCandidate
  | 0 => []
  | n + 1 =>
    tiers words phrases n ++
      alternateAll (candidatesAtPriority words n) (candidatesAtPriority phrases n)
        (startKind (tiers words phrases n) (candidatesAtPriority words n)
          (candidatesAtPriority phrases n))

theorem composeMixedPriorityTiers_eq_take (words phrases : List LessonCandidate) (limit : Nat) :
    composeMixedPriorityTiers words phrases limit =
      (tiers words phrases (maxLessonCandidatePriority + 1)).take limit := by
  unfold composeMixedPriorityTiers
  generalize maxLessonCandidatePriority + 1 = n
  induction n with
  | zero => simp [tiers]
  | succ n ih =>
    rw [List.range_succ, List.foldl_concat, ih]
    dsimp only
    by_cases hfull : limit ≤ (tiers words phrases n).length
    · have hlength : limit ≤ ((tiers words phrases n).take limit).length := by
        rw [List.length_take]
        omega
      rw [if_pos hlength, tiers, List.take_append_of_le_length hfull]
    · have hall : (tiers words phrases n).take limit = tiers words phrases n :=
        List.take_of_length_le (by omega)
      rw [hall, if_neg hfull, tiers, List.take_append, hall]
      split
      · rename_i hempty
        simp only [Bool.and_eq_true, List.isEmpty_iff] at hempty
        rw [hempty.1, hempty.2, alternateAll, alternateLessonKinds_nil]
        simp
      · rw [alternateLessonKinds_eq_take]

theorem alternateAll_perm (words phrases : List LessonCandidate) (next : WordKind) :
    alternateAll words phrases next ~ words ++ phrases :=
  alternateLessonKinds_perm _ words phrases next le_rfl

theorem mem_alternateLessonKinds {limit : Nat} {next : WordKind} {c : LessonCandidate}
    (h : c ∈ alternateLessonKinds limit words phrases next) : c ∈ words ∨ c ∈ phrases := by
  rw [alternateLessonKinds_eq_take] at h
  exact List.mem_append.1 ((alternateAll_perm words phrases next).subset (List.mem_of_mem_take h))

theorem tiers_perm (words phrases : List LessonCandidate) (n : Nat) :
    tiers words phrases n ~ tiersBefore n (words ++ phrases) := by
  induction n with
  | zero => simp [tiers, tiersBefore]
  | succ n ih =>
    refine List.Perm.trans ?_ (tiersBefore_succ n (words ++ phrases))
    have htier : candidatesAtPriority (words ++ phrases) n =
        candidatesAtPriority words n ++ candidatesAtPriority phrases n := List.filter_append ..
    rw [htier]
    exact ih.append (alternateAll_perm _ _ _)

theorem allTiers_perm (words phrases : List LessonCandidate) :
    tiers words phrases (maxLessonCandidatePriority + 1) ~ words ++ phrases := by
  have := tiers_perm words phrases (maxLessonCandidatePriority + 1)
  rwa [tiersBefore_all] at this

theorem mem_tiers {n : Nat} {c : LessonCandidate} (h : c ∈ tiers words phrases n) :
    lessonCandidatePriority c < n := by
  have := List.of_mem_filter ((tiers_perm words phrases n).subset h)
  simpa using this

theorem mem_tier {n : Nat} {next : WordKind} {c : LessonCandidate}
    (h : c ∈ alternateAll (candidatesAtPriority words n) (candidatesAtPriority phrases n) next) :
    lessonCandidatePriority c = n := by
  rcases mem_alternateLessonKinds h with h | h <;> simpa using List.of_mem_filter h

theorem tiers_sorted (words phrases : List LessonCandidate) (n : Nat) :
    (tiers words phrases n).Pairwise fun c d =>
      lessonCandidatePriority c ≤ lessonCandidatePriority d := by
  induction n with
  | zero => exact List.Pairwise.nil
  | succ n ih =>
    refine List.pairwise_append.2 ⟨ih, ?_, fun c hc d hd => ?_⟩
    · refine List.pairwise_of_forall_mem_list fun c hc d hd => ?_
      rw [mem_tier hc, mem_tier hd]
    · rw [mem_tier hd]
      exact (mem_tiers hc).le

/-! The two kinds of a mixed lesson. -/

/-- Two queues, each of its own kind. -/
structure ByKind (words phrases : List LessonCandidate) : Prop where
  words : ∀ c ∈ words, c.kind = .word
  phrases : ∀ c ∈ phrases, c.kind = .phrase

def ofKind (kind : WordKind) (queue : List LessonCandidate) : List LessonCandidate :=
  queue.filter fun c => c.kind = kind

theorem ByKind.tail (word phrase : LessonCandidate) :
    (ByKind (word :: words) phrases → word.kind = .word ∧ ByKind words phrases) ∧
      (ByKind words (phrase :: phrases) → phrase.kind = .phrase ∧ ByKind words phrases) := by
  refine ⟨fun h => ?_, fun h => ?_⟩
  · obtain ⟨hw, hrest⟩ := List.forall_mem_cons.1 h.words
    exact ⟨hw, hrest, h.phrases⟩
  · obtain ⟨hp, hrest⟩ := List.forall_mem_cons.1 h.phrases
    exact ⟨hp, h.words, hrest⟩

theorem ByKind.tier (h : ByKind words phrases) (n : Nat) :
    ByKind (candidatesAtPriority words n) (candidatesAtPriority phrases n) :=
  ⟨fun c hc => h.words c (List.mem_of_mem_filter hc), fun c hc => h.phrases c (List.mem_of_mem_filter hc)⟩

/-- Neither kind is reordered. -/
theorem ofKind_alternateLessonKinds (h : ByKind words phrases) {limit : Nat} (next : WordKind)
    (hroom : words.length + phrases.length ≤ limit) :
    ofKind .word (alternateLessonKinds limit words phrases next) = words ∧
      ofKind .phrase (alternateLessonKinds limit words phrases next) = phrases := by
  induction limit generalizing words phrases next with
  | zero =>
    obtain rfl : words = [] := List.length_eq_zero_iff.1 (by omega)
    obtain rfl : phrases = [] := List.length_eq_zero_iff.1 (by omega)
    simp [alternateLessonKinds, ofKind]
  | succ limit ih =>
    have hphrase : ∀ {phrase rest} next', phrases = phrase :: rest →
        ofKind .word (phrase :: alternateLessonKinds limit words rest next') = words ∧
          ofKind .phrase (phrase :: alternateLessonKinds limit words rest next') = phrases := by
      rintro phrase rest next' rfl
      obtain ⟨hkind, hrest⟩ := (ByKind.tail phrase phrase).2 h
      have := ih hrest next' (by simp at hroom; omega)
      simp only [ofKind] at this ⊢
      simp [hkind, this]
    have hword : ∀ {word rest} next', words = word :: rest →
        ofKind .word (word :: alternateLessonKinds limit rest phrases next') = words ∧
          ofKind .phrase (word :: alternateLessonKinds limit rest phrases next') = phrases := by
      rintro word rest next' rfl
      obtain ⟨hkind, hrest⟩ := (ByKind.tail word word).1 h
      have := ih hrest next' (by simp at hroom; omega)
      simp only [ofKind] at this ⊢
      simp [hkind, this]
    cases words with
    | nil =>
      cases phrases with
      | nil => simp [alternateLessonKinds, ofKind]
      | cons phrase phrases => cases next <;> exact hphrase _ rfl
    | cons word words =>
      cases next with
      | word => exact hword _ rfl
      | phrase =>
        cases phrases with
        | nil => exact hword _ rfl
        | cons phrase phrases => exact hphrase _ rfl

theorem candidatesAtPriority_append (c d : List LessonCandidate) (priority : Nat) :
    candidatesAtPriority (c ++ d) priority =
      candidatesAtPriority c priority ++ candidatesAtPriority d priority := List.filter_append ..

theorem candidatesAtPriority_tiers (n priority : Nat) :
    candidatesAtPriority (tiers words phrases n) priority =
      if priority < n then
        alternateAll (candidatesAtPriority words priority) (candidatesAtPriority phrases priority)
          (startKind (tiers words phrases priority) (candidatesAtPriority words priority)
            (candidatesAtPriority phrases priority))
      else [] := by
  induction n with
  | zero => simp [tiers, candidatesAtPriority]
  | succ n ih =>
    rw [tiers, candidatesAtPriority_append, ih]
    rcases Nat.lt_trichotomy priority n with hlt | rfl | hgt
    · have hnone : ∀ next, candidatesAtPriority (alternateAll (candidatesAtPriority words n)
          (candidatesAtPriority phrases n) next) priority = [] := by
        intro next
        refine List.filter_eq_nil_iff.2 fun c hc => ?_
        have := mem_tier hc
        simp; omega
      rw [hnone, if_pos hlt, if_pos (by omega), List.append_nil]
    · rw [if_neg (lt_irrefl _), if_pos (Nat.lt_succ_self _), List.nil_append]
      exact List.filter_eq_self.2 fun c hc => by simp [mem_tier hc]
    · have hnone : ∀ next, candidatesAtPriority (alternateAll (candidatesAtPriority words n)
          (candidatesAtPriority phrases n) next) priority = [] := by
        intro next
        refine List.filter_eq_nil_iff.2 fun c hc => ?_
        have := mem_tier hc
        simp; omega
      rw [hnone, if_neg (by omega), if_neg (by omega), List.append_nil]

theorem ofKind_tiers (h : ByKind words phrases) (priority : Nat) :
    ofKind .word (candidatesAtPriority (tiers words phrases (maxLessonCandidatePriority + 1)) priority) =
        candidatesAtPriority words priority ∧
      ofKind .phrase (candidatesAtPriority (tiers words phrases (maxLessonCandidatePriority + 1)) priority) =
        candidatesAtPriority phrases priority := by
  rw [candidatesAtPriority_tiers]
  split
  · exact ofKind_alternateLessonKinds (h.tier priority) _ le_rfl
  · have hnone : ∀ queue, candidatesAtPriority queue priority = [] := by
      intro queue
      refine List.filter_eq_nil_iff.2 fun c _ => ?_
      have := lessonCandidatePriority_le c
      simp; omega
    simp [hnone, ofKind]

/-! Two neighbours of one kind. -/

/-- Two neighbours are of one kind only if the tier of the second one has nothing else left. -/
def Alternates : List LessonCandidate → Prop
  | first :: second :: rest =>
    (first.kind = second.kind → ∀ later ∈ rest,
      lessonCandidatePriority later = lessonCandidatePriority second → later.kind = second.kind) ∧
    Alternates (second :: rest)
  | _ => True

theorem alternates_cons {first : LessonCandidate} {rest : List LessonCandidate}
    (h : ∀ second after, rest = second :: after → first.kind = second.kind → ∀ later ∈ after,
      lessonCandidatePriority later = lessonCandidatePriority second → later.kind = second.kind)
    (hrest : Alternates rest) : Alternates (first :: rest) := by
  cases rest with
  | nil => trivial
  | cons second after => exact ⟨h second after rfl, hrest⟩

/-- What does not begin with the kind whose turn it is has only the other one. -/
theorem alternateLessonKinds_head (h : ByKind words phrases) {limit : Nat} {next : WordKind}
    {first : LessonCandidate} {rest : List LessonCandidate}
    (hhead : alternateLessonKinds limit words phrases next = first :: rest)
    (hkind : first.kind ≠ next) :
    ∀ c ∈ alternateLessonKinds limit words phrases next, c.kind = first.kind := by
  have hfirst : first ∈ words ∨ first ∈ phrases :=
    @mem_alternateLessonKinds _ _ limit next first (by rw [hhead]; simp)
  cases limit with
  | zero => simp [alternateLessonKinds] at hhead
  | succ limit =>
    intro c hc
    have hmem := mem_alternateLessonKinds hc
    cases next with
    | word =>
      have hp : first.kind = .phrase := by
        cases hk : first.kind with
        | word => exact absurd hk hkind
        | phrase => rfl
      cases words with
      | nil => exact (h.phrases c (by simpa using hmem)).trans hp.symm
      | cons word words =>
        simp only [alternateLessonKinds, List.cons.injEq] at hhead
        have := h.words word (by simp)
        rw [hhead.1, hp] at this
        cases this
    | phrase =>
      have hw : first.kind = .word := by
        cases hk : first.kind with
        | word => rfl
        | phrase => exact absurd hk hkind
      cases phrases with
      | nil => exact (h.words c (by simpa using hmem)).trans hw.symm
      | cons phrase phrases =>
        have hhead' : phrase = first := by
          cases words <;> simp only [alternateLessonKinds, List.cons.injEq] at hhead <;>
            exact hhead.1
        have := h.phrases phrase (by simp)
        rw [hhead', hw] at this
        cases this

theorem alternates_turn (h : ByKind words phrases) {limit : Nat} {next : WordKind}
    {first : LessonCandidate} (hturn : first.kind ≠ next)
    (hrest : Alternates (alternateLessonKinds limit words phrases next)) :
    Alternates (first :: alternateLessonKinds limit words phrases next) := by
  refine alternates_cons (fun second after hafter hsame later hlater _ => ?_) hrest
  refine alternateLessonKinds_head h hafter (hsame ▸ hturn) later ?_
  rw [hafter]
  exact List.mem_cons_of_mem second hlater

theorem alternateLessonKinds_alternates (h : ByKind words phrases) (limit : Nat) (next : WordKind) :
    Alternates (alternateLessonKinds limit words phrases next) := by
  induction limit generalizing words phrases next with
  | zero => simp [alternateLessonKinds, Alternates]
  | succ limit ih =>
    have hword : ∀ word rest, words = word :: rest →
        Alternates (word :: alternateLessonKinds limit rest phrases .phrase) := by
      rintro word rest rfl
      obtain ⟨hkind, hrest⟩ := (ByKind.tail word word).1 h
      exact alternates_turn hrest (by simp [hkind]) (ih hrest .phrase)
    have hphrase : ∀ phrase rest, phrases = phrase :: rest →
        Alternates (phrase :: alternateLessonKinds limit words rest .word) := by
      rintro phrase rest rfl
      obtain ⟨hkind, hrest⟩ := (ByKind.tail phrase phrase).2 h
      exact alternates_turn hrest (by simp [hkind]) (ih hrest .word)
    cases words with
    | nil =>
      cases phrases with
      | nil => simp [alternateLessonKinds, Alternates]
      | cons phrase phrases => cases next <;> exact hphrase _ _ rfl
    | cons word words =>
      cases next with
      | word => exact hword _ _ rfl
      | phrase =>
        cases phrases with
        | nil => exact hword _ _ rfl
        | cons phrase phrases => exact hphrase _ _ rfl

/-- A tier goes on where the one before it ended. -/
theorem Alternates.append {before tier : List LessonCandidate} (h : Alternates before)
    (htier : Alternates tier)
    (hlater : ∀ c ∈ before, ∀ d ∈ tier, lessonCandidatePriority d ≠ lessonCandidatePriority c)
    (hturn : ∀ last ∈ before.getLast?, ∀ first rest, tier = first :: rest →
      last.kind = first.kind → ∀ later ∈ rest, later.kind = first.kind) :
    Alternates (before ++ tier) := by
  induction before with
  | nil => exact htier
  | cons a before ih =>
    cases before with
    | nil =>
      exact alternates_cons (fun second after hafter hsame later hl _ =>
        hturn a (by simp) second after hafter hsame later hl) htier
    | cons b before =>
      refine ⟨fun hsame later hl hp => ?_, ?_⟩
      · rcases List.mem_append.1 hl with hl | hl
        · exact h.1 hsame later hl hp
        · exact absurd hp (hlater b (by simp) later hl)
      · exact ih h.2 (fun c hc => hlater c (List.mem_cons_of_mem a hc))
          (fun last hlast => hturn last (by simpa using hlast))

theorem startKind_ne {selected words phrases : List LessonCandidate} {last : LessonCandidate}
    (h : last ∈ selected.getLast?) : last.kind ≠ startKind selected words phrases := by
  unfold startKind
  rw [Option.mem_def.1 h]
  cases hk : last.kind <;> simp [hk]

theorem tiers_alternate (h : ByKind words phrases) (n : Nat) : Alternates (tiers words phrases n) := by
  induction n with
  | zero => trivial
  | succ n ih =>
    refine ih.append (alternateLessonKinds_alternates (h.tier n) _ _) ?_ ?_
    · intro c hc d hd
      rw [mem_tier hd]
      have := mem_tiers hc
      omega
    · intro last hlast first rest hfirst hsame later hl
      refine alternateLessonKinds_head (h.tier n) hfirst (hsame ▸ startKind_ne hlast) later ?_
      rw [← alternateAll, hfirst]
      exact List.mem_cons_of_mem first hl

/-- With room for all, a mixed lesson is a permutation of its words and phrases in
tiers of falling urgency, each kind of a tier in its own order and the kinds in turn;
with less room it is the beginning of that. -/
theorem composeMixedPriorityTiers_alternates (words phrases : List LessonCandidate)
    (h : ByKind words phrases) (limit : Nat) :
    (words.length + phrases.length ≤ limit →
      let mixed := composeMixedPriorityTiers words phrases limit
      mixed ~ words ++ phrases ∧
        mixed.Pairwise (fun c d => lessonCandidatePriority c ≤ lessonCandidatePriority d) ∧
        (∀ priority,
          ofKind .word (candidatesAtPriority mixed priority) = candidatesAtPriority words priority ∧
          ofKind .phrase (candidatesAtPriority mixed priority) =
            candidatesAtPriority phrases priority) ∧
        Alternates mixed) ∧
      (limit < words.length + phrases.length →
        composeMixedPriorityTiers words phrases limit =
          (composeMixedPriorityTiers words phrases (words.length + phrases.length)).take limit) := by
  have hperm := allTiers_perm words phrases
  have hlength := hperm.length_eq
  rw [List.length_append] at hlength
  have hall : ∀ room, words.length + phrases.length ≤ room →
      composeMixedPriorityTiers words phrases room =
        tiers words phrases (maxLessonCandidatePriority + 1) := by
    intro room hroom
    rw [composeMixedPriorityTiers_eq_take, List.take_of_length_le (by omega)]
  refine ⟨fun hroom => ?_, fun _ => ?_⟩
  · rw [hall limit hroom]
    exact ⟨hperm, tiers_sorted words phrases _, ofKind_tiers h, tiers_alternate h _⟩
  · rw [hall _ le_rfl, composeMixedPriorityTiers_eq_take]

/-- A due candidate of a kind. -/
def dueCandidate (w : WordId) (kind : WordKind) : LessonCandidate where
  wordId := w
  kind := kind
  status := .learning
  dueAt := 0
  due := true
  topic := ""
  partOfSpeech := ""
  recentFailure := false
  weakTopic := false

theorem due_in_turn :
    composeMixedPriorityTiers [dueCandidate 1 .word, dueCandidate 2 .word] [dueCandidate 3 .phrase] 2 =
      (composeMixedPriorityTiers [dueCandidate 1 .word, dueCandidate 2 .word]
        [dueCandidate 3 .phrase] 3).take 2 :=
  (composeMixedPriorityTiers_alternates [dueCandidate 1 .word, dueCandidate 2 .word]
    [dueCandidate 3 .phrase] ⟨by decide, by decide⟩ 2).2 (by decide)

end LessonTiers
