import LexiGo.Onboarding.OnboardingMachine
import Mathlib.Data.List.Range

/-! What the queries over the diagnostic of a user find. -/
namespace DiagnosticItems
open RowStore DiagnosticSelection OnboardingSchema OnboardingRepository OnboardingMachine
open LearningSchema (UserId WordId WordRow)

variable {db : OnboardingDb} {u : UserId} {p : DiagnosticRow → Bool} {position : Nat}
variable {r : DiagnosticRow}

theorem mem_itemKeys {k : Key} :
    k ∈ rowsWhere (diagnosticItems fun u' _ r => u' = u && p r) db ↔
      ∃ position r, k = diagnosticKey u position ∧ diagnosticAt u position db = some r ∧
        p r = true := by
  rw [mem_rowsWhere]
  constructor
  · rintro ⟨r, hr, hp⟩
    cases k with
    | inl k => cases hp
    | inr k =>
      cases k with
      | preferences | facets | onboarding => cases hp
      | diagnostic u' position =>
        obtain ⟨hu, hpr⟩ := Bool.and_eq_true_iff.1 hp
        obtain rfl := of_decide_eq_true hu
        exact ⟨position, r, rfl, hr, hpr⟩
  · rintro ⟨position, r, rfl, hr, hp⟩
    exact ⟨r, hr, Bool.and_eq_true_iff.2 ⟨decide_eq_true rfl, hp⟩⟩

theorem mem_itemsOf {s : Nat × DiagnosticRow} :
    s ∈ itemsOf u p db ↔ diagnosticAt u s.1 db = some s.2 ∧ p s.2 = true := by
  unfold itemsOf
  rw [List.mem_insertionSort, List.mem_filterMap]
  constructor
  · rintro ⟨k, hk, hrow⟩
    obtain ⟨position, r, rfl, hr, hp⟩ := mem_itemKeys.1 hk
    obtain ⟨r', hr', rfl⟩ := Option.map_eq_some_iff.1 hrow
    obtain rfl : r' = r := Option.some.inj (hr'.symm.trans hr)
    exact ⟨hr', hp⟩
  · rintro ⟨hr, hp⟩
    refine ⟨diagnosticKey u s.1, mem_itemKeys.2 ⟨s.1, s.2, rfl, hr, hp⟩, ?_⟩
    exact Option.map_eq_some_iff.2 ⟨s.2, hr, rfl⟩

theorem itemsOf_positions_nodup : ((itemsOf u p db).map Prod.fst).Nodup := by
  unfold itemsOf
  dsimp only
  rw [((List.perm_insertionSort _ _).map _).nodup_iff, List.map_filterMap,
    List.nodup_iff_pairwise_ne, List.pairwise_filterMap]
  refine (List.nodup_iff_pairwise_ne.1 (rowsWhere_nodup _ _)).imp_of_mem ?_
  rintro k k' hk hk' hne n hn n' hn' hsame
  obtain ⟨position, r, rfl, -⟩ := mem_itemKeys.1 hk
  obtain ⟨position', r', rfl, -⟩ := mem_itemKeys.1 hk'
  obtain ⟨s, hs, hsn⟩ := Option.map_eq_some_iff.1 hn
  obtain ⟨s', hs', hsn'⟩ := Option.map_eq_some_iff.1 hn'
  obtain ⟨_, -, hrow⟩ := Option.map_eq_some_iff.1 hs
  obtain ⟨_, -, hrow'⟩ := Option.map_eq_some_iff.1 hs'
  rw [← hrow] at hsn
  rw [← hrow'] at hsn'
  obtain rfl : position = position' := hsn.trans (hsame.trans hsn'.symm)
  exact hne rfl

/-- The items come by their positions, each position once. -/
theorem itemsOf_sorted : ((itemsOf u p db).map Prod.fst).Pairwise (· < ·) := by
  have sorted : ((itemsOf u p db).map Prod.fst).Pairwise (· ≤ ·) := by
    rw [List.pairwise_map]
    have : Std.Total fun s s' : Nat × DiagnosticRow => s.1 ≤ s'.1 := ⟨fun s s' => Nat.le_total _ _⟩
    have : IsTrans (Nat × DiagnosticRow) fun s s' => s.1 ≤ s'.1 := ⟨fun _ _ _ => Nat.le_trans⟩
    exact List.pairwise_insertionSort _ _
  refine (sorted.and (List.nodup_iff_pairwise_ne.1 itemsOf_positions_nodup)).imp ?_
  exact fun ⟨hle, hne⟩ => Nat.lt_of_le_of_ne hle hne

theorem itemsOf_nodup : (itemsOf u p db).Nodup := itemsOf_positions_nodup.of_map _

section Counts

theorem itemsOf_length_le {q : DiagnosticRow → Bool} (h : ∀ r, p r = true → q r = true) :
    (itemsOf u p db).length ≤ (itemsOf u q db).length := by
  refine (itemsOf_nodup.subperm fun s hs => ?_).length_le
  obtain ⟨hr, hp⟩ := mem_itemsOf.1 hs
  exact mem_itemsOf.2 ⟨hr, h _ hp⟩

theorem progress_le : (progress u db).2 ≤ (progress u db).1 := itemsOf_length_le fun _ _ => rfl

theorem progress_bounded (h : Sound (view db)) : (progress u db).1 ≤ 12 := by
  have hsub : (itemsOf u (fun _ => true) db).map Prod.fst ⊆ List.range 12 := by
    intro n hn
    obtain ⟨s, hs, rfl⟩ := List.mem_map.1 hn
    exact List.mem_range.2 (h.bounded u s.1 s.2 (mem_itemsOf.1 hs).1)
  have hle := (itemsOf_positions_nodup.subperm hsub).length_le
  rwa [List.length_map, List.length_range] at hle

/-- All items are counted as marked exactly when all of them are. -/
theorem progress_finished :
    (progress u db).2 = (progress u db).1 ↔
      ∀ position r, diagnosticAt u position db = some r → isMarked r = true := by
  constructor
  · intro heq position r hr
    have hsub : itemsOf u isMarked db ⊆ itemsOf u (fun _ => true) db := fun s hs =>
      mem_itemsOf.2 ⟨(mem_itemsOf.1 hs).1, rfl⟩
    have hperm := (itemsOf_nodup.subperm hsub).perm_of_length_le (Nat.le_of_eq heq.symm)
    have hmem : (position, r) ∈ itemsOf u (fun _ => true) db := mem_itemsOf.2 ⟨hr, rfl⟩
    exact (mem_itemsOf.1 (hperm.mem_iff.2 hmem)).2
  · intro hall
    refine Nat.le_antisymm progress_le (itemsOf_nodup.subperm fun s hs => ?_).length_le
    have hr := (mem_itemsOf.1 hs).1
    exact mem_itemsOf.2 ⟨hr, hall _ _ hr⟩

theorem progress_pos (hr : diagnosticAt u position db = some r) (hmarked : isMarked r = true) :
    0 < (progress u db).2 :=
  List.length_pos_of_mem (mem_itemsOf.2 ⟨hr, hmarked⟩ : (position, r) ∈ itemsOf u isMarked db)

end Counts

theorem prompt_some {s : Nat × DiagnosticRow} {found : DiagnosticPrompt}
    (h : prompt db s = some found) :
    found.position = s.1 ∧ found.wordId = s.2.wordId ∧ (wordAt s.2.wordId db).isSome = true := by
  obtain ⟨position, r⟩ := s
  obtain ⟨word, hword, h⟩ := Option.bind_eq_some_iff.1 h
  obtain ⟨facets, -, h⟩ := Option.bind_eq_some_iff.1 h
  cases h
  exact ⟨rfl, rfl, by rw [hword]; rfl⟩

/-- The prompt shown is for an item that has no mark. -/
theorem currentPrompt_some {found : DiagnosticPrompt} (h : currentPrompt u db = some found) :
    ∃ r, diagnosticAt u found.position db = some r ∧ isUnmarked r = true ∧
      r.wordId = found.wordId ∧ (wordAt found.wordId db).isSome = true := by
  obtain ⟨s, hs, hprompt⟩ := List.exists_of_findSome?_eq_some h
  obtain ⟨hr, hunmarked⟩ := mem_itemsOf.1 hs
  obtain ⟨hposition, hword, hthere⟩ := prompt_some hprompt
  rw [hposition, hword]
  exact ⟨s.2, hr, hunmarked, rfl, hthere⟩

theorem currentAt_some {found : Nat × DiagnosticRow × String}
    (h : currentAt u position db = some found) :
    ∃ r translation, found = (position, r, translation) ∧ diagnosticAt u position db = some r ∧
      r.marking = none := by
  obtain ⟨r, hr, h⟩ := Option.bind_eq_some_iff.1 h
  obtain ⟨word, -, h⟩ := Option.bind_eq_some_iff.1 h
  cases h
  obtain ⟨hr, hunmarked⟩ := Option.filter_eq_some_iff.1 hr
  exact ⟨r, word.translation, rfl, hr, Option.isNone_iff_eq_none.1 hunmarked⟩

theorem currentAt_none (hsound : Sound (view db)) (h : currentAt u position db = none)
    (hr : diagnosticAt u position db = some r) : isUnmarked r = false := by
  by_contra hunmarked
  have hword := hsound.words u position r hr
  obtain ⟨word, hword⟩ := Option.isSome_iff_exists.1 hword
  have hword : wordAt r.wordId db = some word := hword
  unfold currentAt at h
  rw [hr, Option.filter_some_pos (by simpa using hunmarked)] at h
  change (wordAt r.wordId db).bind _ = none at h
  rw [hword] at h
  cases h

section Candidates
variable {unicode : GoText.Unicode} {digest : UserId → WordId → Nat}

/-- A candidate stands for a word that the user has learned. -/
theorem candidate_learned {c : DiagnosticCandidate} (h : c ∈ diagnosticCandidates digest u db) :
    ∃ w : WordId, c.wordId = w ∧ (db.lookup (userWordKey u w)).isSome = true := by
  obtain ⟨w, hw, hc⟩ := List.mem_filterMap.1 (List.mem_of_mem_take h)
  rw [List.mem_insertionSort] at hw
  obtain ⟨k, hk, hkw⟩ := List.mem_filterMap.1 hw
  obtain ⟨r, hr, hp⟩ := mem_rowsWhere.1 hk
  refine ⟨w, ?_, ?_⟩
  · obtain ⟨word, -, hc⟩ := Option.bind_eq_some_iff.1 hc
    obtain ⟨facets, -, hc⟩ := Option.bind_eq_some_iff.1 hc
    cases hc
    rfl
  · cases k with
    | inr k => cases hp
    | inl k =>
      cases k with
      | word | lesson | item | event | idempotency | lessonCreation | activeLesson => cases hp
      | userWord u' w' =>
        obtain rfl := of_decide_eq_true hp
        obtain rfl := Option.some.inj hkw
        rw [hr]
        rfl

/-- What the diagnostic asks about: at most twelve words of the user's, none of them twice. -/
theorem selected_learned {words : List WordId}
    (h : words = (selectDiagnosticCandidates unicode (diagnosticCandidates digest u db)
      diagnosticOnboardingItemLimit).map fun candidate => candidate.wordId.toNat) :
    words.length ≤ 12 ∧ words.Nodup ∧ ∀ w ∈ words, (db.lookup (userWordKey u w)).isSome = true := by
  subst h
  have hfills := @select_fills unicode (diagnosticCandidates digest u db)
    diagnosticOnboardingItemLimit
  have hnone : Chosen (diagnosticCandidates digest u db) [] :=
    ⟨fun c hc => absurd hc List.not_mem_nil, List.nodup_nil⟩
  obtain ⟨hchosen, -⟩ := Fills.chosen hnone hfills
  have hsize := Fills.size hnone (Nat.zero_le _) hfills
  refine ⟨?_, ?_, ?_⟩
  · rw [List.length_map, hsize]
    exact Nat.min_le_left _ _
  · refine hchosen.distinct.of_map.map_on ?_
    intro c hc c' hc' heq
    obtain ⟨w, hcw, -⟩ := candidate_learned (hchosen.offered c hc)
    obtain ⟨w', hcw', -⟩ := candidate_learned (hchosen.offered c' hc')
    rw [hcw, hcw'] at heq
    refine List.inj_on_of_nodup_map hchosen.distinct hc hc' ?_
    rw [hcw, hcw']
    exact congrArg Int.ofNat heq
  · intro w hw
    obtain ⟨c, hc, rfl⟩ := List.mem_map.1 hw
    obtain ⟨w, hcw, hlearned⟩ := candidate_learned (hchosen.offered c hc)
    rw [hcw]
    exact hlearned

end Candidates

end DiagnosticItems
